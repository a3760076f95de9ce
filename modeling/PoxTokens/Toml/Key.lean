import PoxTokens.Toml.Token
import PoxTokens.Toml.Value

/-!
# PoxTokens.Toml.Key

Keys: names parted by points, each without quotes or in quotes.
-/

namespace PoxTokens.Toml

/-- A name or a point of a key. -/
inductive KeyPart where
  | name (text : List Char)
  | point
  deriving DecidableEq, Repr

/-- May the character stand in a name without quotes? -/
def isNameChar (c : Char) : Bool := c.isAlphanum || c == '_' || c == '-'

/-- The names and points of a run without quotes; `none` if it holds anything
else. -/
def barePartsFrom? (name : List Char) : List Char → Option (List KeyPart)
  | [] => some (if name.isEmpty then [] else [.name name])
  | '.' :: rest =>
    (barePartsFrom? [] rest).map fun parts =>
      if name.isEmpty then .point :: parts else .name name :: .point :: parts
  | c :: rest => if isNameChar c then barePartsFrom? (name ++ [c]) rest else none

/-- The names and points of a token of a key. -/
def keyParts? : Token → Option (List KeyPart)
  | .blank => some []
  | .bare text => barePartsFrom? [] text
  | .line text => some [.name text]
  | _ => none

/-- The path of names with a point between each two. -/
def pathOfParts? : List KeyPart → Option Path
  | [.name text] => some [String.ofList text]
  | .name text :: .point :: rest => (pathOfParts? rest).map (String.ofList text :: ·)
  | _ => none

/-- How deep values may be nested, and how many names a key may have. -/
def nestingLimit : Nat := 80

/-- The path that the tokens of a key are. -/
def path? (tokens : List Token) : Option Path := do
  let parts ← tokens.mapM keyParts?
  let path ← pathOfParts? parts.flatten
  if path.length < nestingLimit then some path else none

end PoxTokens.Toml
