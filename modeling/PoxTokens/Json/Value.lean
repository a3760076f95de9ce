/-!
# PoxTokens.Json.Value

JSON documents.  Numbers keep the digits in which they were written, and
objects keep their fields in order, repeated names included, so a document
says exactly what its text says.
-/

namespace PoxTokens.Json

/-- What a JSON string holds.  `none` stands for a string whose escapes name
half of a surrogate pair: it is well formed, but no text is its content. -/
abbrev Content := Option String

/-- A JSON document. -/
inductive Value where
  | null
  | bool (b : Bool)
  /-- A number as it is written. -/
  | number (literal : String)
  | string (content : Content)
  | array (items : List Value)
  | object (fields : List (Content × Value))
  deriving Repr

namespace Value

/-- A string with a content. -/
def text (s : String) : Value := string (some s)

/-- A natural number in decimal digits. -/
def natural (n : Nat) : Value := number (toString n)

/-- An object whose names all have a content. -/
def record (fields : List (String × Value)) : Value :=
  object (fields.map fun (name, v) => (some name, v))

/-- The natural number that a document is: digits only, so neither `-0` nor
`1e2`. -/
def natural? : Value → Option Nat
  | number literal =>
    if literal.toList.all Char.isDigit then some (Nat.ofDigitChars 10 literal.toList 0) else none
  | _ => none

end Value

end PoxTokens.Json
