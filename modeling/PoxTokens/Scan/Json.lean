import PoxTokens.Json.Reader
import PoxTokens.Scan

/-!
# PoxTokens.Scan.Json

Scan options from JSON.  They are an object whose fields may be missing, each at
most once, fields of other names being ignored; or an array of at most three
values: policy, end marker, context width.
-/

namespace PoxTokens

/-- The largest number that a machine word of 64 bits holds. -/
def maxWord : Nat := 0xffffffffffffffff

/-- A policy: its name, or an object with its name as the only field, which is
null. -/
def Policy.ofJson? : Json.Value → Option Policy
  | .string (some name) => ofStoredName? name
  | .object [(some name, .null)] => ofStoredName? name
  | _ => none

/-- A truth value. -/
def truthOfJson? : Json.Value → Option Bool
  | .bool b => some b
  | _ => none

/-- A number of characters: a natural number that fits a machine word. -/
def widthOfJson? (v : Json.Value) : Option Nat :=
  v.natural?.filter (· ≤ maxWord)

namespace ScanOptions

/-- The value of the only field of a name; the default if there is none, and
`none` if there are several or the value is not of the right form. -/
def fieldOfJson? {α : Type} (read : Json.Value → Option α) (default : α) (name : String)
    (fields : List (Json.Content × Json.Value)) : Option α :=
  match fields.filter (·.1 == some name) with
  | [] => some default
  | [(_, v)] => read v
  | _ => none

/-- The value at a place of an array; the default if the array ends before. -/
def itemOfJson? {α : Type} (read : Json.Value → Option α) (default : α) :
    Option Json.Value → Option α
  | none => some default
  | some v => read v

/-- Scan options from a JSON document. -/
def ofJson? : Json.Value → Option ScanOptions
  | .object fields => do
    let base : ScanOptions := {}
    if fields.any (·.1.isNone) then none
    else do
      let policy ← fieldOfJson? Policy.ofJson? base.policy "policy" fields
      let emitEof ← fieldOfJson? truthOfJson? base.emitEof "emit_eof" fields
      let contextWidth ← fieldOfJson? widthOfJson? base.contextWidth "context_width" fields
      pure { policy, emitEof, contextWidth }
  | .array items => do
    let base : ScanOptions := {}
    if 3 < items.length then none
    else do
      let policy ← itemOfJson? Policy.ofJson? base.policy items[0]?
      let emitEof ← itemOfJson? truthOfJson? base.emitEof items[1]?
      let contextWidth ← itemOfJson? widthOfJson? base.contextWidth items[2]?
      pure { policy, emitEof, contextWidth }
  | _ => none

/-- Scan options from the text of a JSON document. -/
def ofJsonText? (text : String) : Option ScanOptions := do
  let v ← Json.read? text
  ofJson? v

end ScanOptions

end PoxTokens
