/-!
# PoxTokens.Toml.Value

TOML documents.  A document is a table: names with values, in the order in which
they were first mentioned.  A table remembers how it came to be, since that
decides what may still be added to it.
-/

namespace PoxTokens.Toml

/-- How a table came to be. -/
inductive Origin where
  /-- Written in braces: complete. -/
  | inline
  /-- Opened by a header of its own. -/
  | header
  /-- Named on the way to the table that a header opens. -/
  | implied
  /-- Named on the way to the key of an entry. -/
  | dotted
  deriving DecidableEq, Repr

/-- A TOML value.  Floats, dates and times keep the text in which they were
written. -/
inductive Value where
  | string (s : String)
  | integer (n : Int)
  | float (literal : String)
  | boolean (b : Bool)
  /-- A date, a time, or both. -/
  | moment (literal : String)
  | array (items : List Value)
  | table (origin : Origin) (entries : List (String × Value))
  /-- Tables that headers in double brackets open one after the other. -/
  | tables (earlier : List (List (String × Value))) (last : List (String × Value))
  deriving Repr

/-- Names with values, no name twice. -/
abbrev Table := List (String × Value)

namespace Table

/-- The value of a name. -/
def get? (table : Table) (name : String) : Option Value :=
  (table.find? (·.1 == name)).map (·.2)

/-- Gives a name the value that a function makes of its old one, if any; a new
name comes last.  The function may refuse. -/
def alter (name : String) (f : Option Value → Option Value) : Table → Option Table
  | [] => (f none).map fun v => [(name, v)]
  | (k, v) :: rest =>
    if k = name then (f (some v)).map fun v' => (k, v') :: rest
    else (alter name f rest).map ((k, v) :: ·)

end Table

/-- A path of names into nested tables. -/
abbrev Path := List String

end PoxTokens.Toml
