import PoxTokens.Failure
import PoxTokens.Listing
import PoxTokens.Scan
import PoxTokens.Toml.Document

/-!
# PoxTokens.Settings.Toml

What a user may set once and for all, how sources are scanned and how listings are
printed; settings from TOML, and as TOML.  A group of settings is a table whose names may
all be missing, or an array that gives the values in order and may end early;
names and items beyond the known ones are ignored.  A choice is its name as a
string, or a table with its name as the only name and nothing in it.
-/

namespace PoxTokens

open Toml (Value Table)

/-! ## Settings -/

/-- How listings are printed. -/
structure OutputSettings where
  format : ListingFormat := .text
  /-- List blanks too. -/
  keepBlanks : Bool := false
  deriving DecidableEq, Repr

/-- All settings. -/
structure Settings where
  scan : ScanOptions := {}
  output : OutputSettings := {}
  deriving DecidableEq, Repr

/-! ## Reading -/

/-- Where the settings of a group are found. -/
inductive SettingsGroup where
  | named (table : Table)
  | listed (items : List Value)

namespace SettingsGroup

/-- The group that a value holds.  A date or time is a group without any known
name. -/
def ofValue? : Value → Option SettingsGroup
  | .table _ entries => some (named entries)
  | .array items => some (listed items)
  | .tables earlier last => some (listed ((earlier ++ [last]).map (.table .header)))
  | .moment _ => some (named [])
  | _ => none

/-- The value of a setting, given its name and its place. -/
def get? (group : SettingsGroup) (name : String) (index : Nat) : Option Value :=
  match group with
  | named table => table.get? name
  | listed items => items[index]?

/-- Reads a setting; a missing one has its default. -/
def read? {α : Type} (group : SettingsGroup) (name : String) (index : Nat)
    (ofValue? : Value → Option α) (default : α) : Option α :=
  match group.get? name index with
  | none => some default
  | some v => ofValue? v

end SettingsGroup

/-- A table or array with nothing in it. -/
def isEmptyValue : Value → Bool
  | .table _ [] => true
  | .array [] => true
  | _ => false

/-- The name of a choice. -/
def choiceName? : Value → Option String
  | .string name => some name
  | .table _ [(name, v)] => if isEmptyValue v then some name else none
  | _ => none

/-- A policy from TOML. -/
def Policy.ofToml? (v : Value) : Option Policy := (choiceName? v).bind ofStoredName?

/-- A format of listings from TOML. -/
def ListingFormat.ofToml? (v : Value) : Option ListingFormat := (choiceName? v).bind ofStoredName?

/-- A truth value from TOML. -/
def truthOfToml? : Value → Option Bool
  | .boolean b => some b
  | _ => none

/-- A number of characters from TOML: an integer that is not negative. -/
def widthOfToml? : Value → Option Nat
  | .integer n => n.toNat?
  | _ => none

/-- Scan options from TOML. -/
def ScanOptions.ofToml? (v : Value) : Option ScanOptions := do
  let group ← SettingsGroup.ofValue? v
  let base : ScanOptions := {}
  let policy ← group.read? "policy" 0 Policy.ofToml? base.policy
  let emitEof ← group.read? "emit_eof" 1 truthOfToml? base.emitEof
  let contextWidth ← group.read? "context_width" 2 widthOfToml? base.contextWidth
  pure { policy, emitEof, contextWidth }

/-- Output settings from TOML. -/
def OutputSettings.ofToml? (v : Value) : Option OutputSettings := do
  let group ← SettingsGroup.ofValue? v
  let base : OutputSettings := {}
  let format ← group.read? "format" 0 ListingFormat.ofToml? base.format
  let keepBlanks ← group.read? "keep_whitespace" 1 truthOfToml? base.keepBlanks
  pure { format, keepBlanks }

/-- Settings from a document. -/
def Settings.ofTable? (table : Table) : Option Settings := do
  let group := SettingsGroup.named table
  let base : Settings := {}
  let scan ← group.read? "scan" 0 ScanOptions.ofToml? base.scan
  let output ← group.read? "output" 1 OutputSettings.ofToml? base.output
  pure { scan, output }

/-- Settings from the text of a document. -/
def Settings.ofToml (text : String) : Except Failure Settings :=
  match Toml.read text with
  | .error fault => .error (.settingsMalformed fault.message)
  | .ok table =>
    match ofTable? table with
    | none => .error (.settingsMalformed "unsuitable value of a setting")
    | some settings => .ok settings

/-! ## Writing -/

/-- A truth value as TOML writes it. -/
def truthChars (b : Bool) : List Char := (if b then "true" else "false").toList

/-- An entry on a line of its own. -/
def entryLine (name : String) (value : List Char) : List Char :=
  name.toList ++ " = ".toList ++ value ++ ['\n']

/-- A name between double quotes; it must need no escape. -/
def plainQuoted (name : String) : List Char := '"' :: (name.toList ++ ['"'])

/-- The settings as a document with a table for each group. -/
def Settings.tomlChars (settings : Settings) : List Char :=
  "[scan]\n".toList
    ++ entryLine "policy" (plainQuoted settings.scan.policy.storedName)
    ++ entryLine "emit_eof" (truthChars settings.scan.emitEof)
    ++ entryLine "context_width" (decimal settings.scan.contextWidth)
    ++ "\n[output]\n".toList
    ++ entryLine "format" (plainQuoted settings.output.format.storedName)
    ++ entryLine "keep_whitespace" (truthChars settings.output.keepBlanks)

/-- The text of the settings; `none` if the context width does not fit an
integer of TOML. -/
def Settings.toToml? (settings : Settings) : Option String :=
  if settings.scan.contextWidth < Toml.integerBound then
    some (String.ofList settings.tomlChars)
  else none

end PoxTokens
