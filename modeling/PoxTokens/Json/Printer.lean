import PoxTokens.Json.Value

/-!
# PoxTokens.Json.Printer

The text of a JSON document, on one line (`compact`) or with one field or item
to a line (`pretty`).  Inside strings the double quote, the backslash and the
characters below U+0020 are escaped, and nothing else.
-/

namespace PoxTokens.Json

/-! ## Strings -/

/-- Writes a character inside a string. -/
def escapeChar (c : Char) : List Char :=
  if c = '"' then ['\\', '"']
  else if c = '\\' then ['\\', '\\']
  else if c = '\x08' then ['\\', 'b']
  else if c = '\t' then ['\\', 't']
  else if c = '\n' then ['\\', 'n']
  else if c = '\x0c' then ['\\', 'f']
  else if c = '\r' then ['\\', 'r']
  else if c.toNat < 0x20 then
    ['\\', 'u', '0', '0', Nat.digitChar (c.toNat / 16), Nat.digitChar (c.toNat % 16)]
  else [c]

/-- Writes a string.  One without content is written as a lone half of a
surrogate pair. -/
def writeString : Content → List Char
  | some s => '"' :: (s.toList.flatMap escapeChar ++ ['"'])
  | none => "\"\\ud800\"".toList

/-! ## One line -/

mutual

/-- Writes a document on one line, without blanks. -/
def compactChars : Value → List Char
  | .null => "null".toList
  | .bool b => (if b then "true" else "false").toList
  | .number literal => literal.toList
  | .string content => writeString content
  | .array [] => ['[', ']']
  | .array (v :: vs) => '[' :: (compactChars v ++ compactItems vs)
  | .object [] => ['{', '}']
  | .object ((name, v) :: fields) =>
    '{' :: (writeString name ++ ':' :: (compactChars v ++ compactFields fields))

/-- Writes the items behind the first one and closes the array. -/
def compactItems : List Value → List Char
  | [] => [']']
  | v :: vs => ',' :: (compactChars v ++ compactItems vs)

/-- Writes the fields behind the first one and closes the object. -/
def compactFields : List (Content × Value) → List Char
  | [] => ['}']
  | (name, v) :: fields =>
    ',' :: (writeString name ++ ':' :: (compactChars v ++ compactFields fields))

end

/-- A document on one line. -/
def compact (v : Value) : String := String.ofList (compactChars v)

/-! ## Indented -/

/-- Starts a line, indented by two spaces for each level. -/
def newline (depth : Nat) : List Char := '\n' :: List.replicate (2 * depth) ' '

mutual

/-- Writes a document that starts at a level of indentation. -/
def prettyChars (depth : Nat) : Value → List Char
  | .null => "null".toList
  | .bool b => (if b then "true" else "false").toList
  | .number literal => literal.toList
  | .string content => writeString content
  | .array [] => ['[', ']']
  | .array (v :: vs) =>
    '[' :: (newline (depth + 1) ++ (prettyChars (depth + 1) v ++ prettyItems depth vs))
  | .object [] => ['{', '}']
  | .object ((name, v) :: fields) =>
    '{' :: (newline (depth + 1) ++ (writeString name ++
      ':' :: ' ' :: (prettyChars (depth + 1) v ++ prettyFields depth fields)))

/-- Writes the items behind the first one and closes the array. -/
def prettyItems (depth : Nat) : List Value → List Char
  | [] => newline depth ++ [']']
  | v :: vs => ',' :: (newline (depth + 1) ++ (prettyChars (depth + 1) v ++ prettyItems depth vs))

/-- Writes the fields behind the first one and closes the object. -/
def prettyFields (depth : Nat) : List (Content × Value) → List Char
  | [] => newline depth ++ ['}']
  | (name, v) :: fields =>
    ',' :: (newline (depth + 1) ++ (writeString name ++
      ':' :: ' ' :: (prettyChars (depth + 1) v ++ prettyFields depth fields)))

end

/-- A document with one field or item to a line. -/
def pretty (v : Value) : String := String.ofList (prettyChars 0 v)

end PoxTokens.Json
