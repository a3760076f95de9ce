import PoxTokens.Json.Printer
import PoxTokens.Rule
import PoxTokens.Token

/-!
# PoxTokens.Listing

Listings of tokens, as text with one token to a line or as a JSON document, with
or without counts of the kinds; and the listing of the table of rules, one rule to
a line.
-/

namespace PoxTokens

/-- How a listing is written. -/
inductive ListingFormat where
  | text
  | json
  deriving DecidableEq, Repr

namespace ListingFormat

/-- Both formats. -/
def all : List ListingFormat := [text, json]

/-- The format as the command line spells it. -/
def name : ListingFormat → String
  | text => "text"
  | json => "json"

/-- The format with exactly this name. -/
def ofName? (name : String) : Option ListingFormat := all.find? (·.name == name)

/-- The format as stored settings spell it. -/
def storedName : ListingFormat → String
  | text => "text"
  | json => "json"

/-- The format that is stored under exactly this name. -/
def ofStoredName? (name : String) : Option ListingFormat := all.find? (·.storedName == name)

/-- A format is found by its name. -/
theorem ofName?_name (format : ListingFormat) : ofName? format.name = some format := by
  cases format <;> rfl

/-- Settings and the command line spell every format alike. -/
theorem storedName_eq_name (format : ListingFormat) : format.storedName = format.name := by
  cases format <;> rfl

/-- Settings and the command line know the same names of formats. -/
theorem ofStoredName?_eq_ofName? (name : String) : ofStoredName? name = ofName? name := by
  simp only [ofStoredName?, ofName?, storedName_eq_name]

end ListingFormat

/-! ## Counts -/

/-- Adds one to the count of a kind; a kind without a count gets one at the
end. -/
def countKind (kind : Kind) : List (Kind × Nat) → List (Kind × Nat)
  | [] => [(kind, 1)]
  | (k, n) :: counts => if k = kind then (k, n + 1) :: counts else (k, n) :: countKind kind counts

/-- How many tokens there are of each kind, the kinds in the order in which
they first occur. -/
def kindCounts (tokens : List Token) : List (Kind × Nat) :=
  tokens.foldl (fun counts t => countKind t.kind counts) []

/-! ## Columns -/

/-- Fills a text up to a width with spaces on its left. -/
def padLeft (width : Nat) (cs : List Char) : List Char :=
  List.replicate (width - cs.length) ' ' ++ cs

/-- Fills a text up to a width with spaces on its right. -/
def padRight (width : Nat) (cs : List Char) : List Char :=
  cs ++ List.replicate (width - cs.length) ' '

/-- A number in decimal digits. -/
def decimal (n : Nat) : List Char := Nat.toDigits 10 n

/-! ## Documents -/

/-- A kind as a JSON string. -/
def Kind.toJson (kind : Kind) : Json.Value := .text kind.storedName

/-- A token as a JSON object: its position, its lexeme and its kind, in this
order. -/
def Token.toJson (t : Token) : Json.Value :=
  .record [("position", .natural t.position), ("lexeme", .text t.lexeme), ("kind", t.kind.toJson)]

/-! ## Listings -/

/-- The tokens to be listed, and their counts if they are asked for. -/
structure Listing where
  tokens : List Token
  counts : Option (List (Kind × Nat))

namespace Listing

/-- The line of a token: its number, its kind, its quoted lexeme and its byte
offset. -/
def tokenLine (index : Nat) (t : Token) : List Char :=
  padLeft 4 (decimal index) ++ ' ' :: (padRight 12 t.kind.name.toList ++
    ' ' :: (quoteText t.lexeme.toList ++ ' ' :: '@' :: (decimal t.position ++ ['\n'])))

/-- The lines of tokens, numbered from an index. -/
def tokenLines (index : Nat) : List Token → List Char
  | [] => []
  | t :: ts => tokenLine index t ++ tokenLines (index + 1) ts

/-- The line of a count. -/
def countLine (count : Kind × Nat) : List Char :=
  padRight 12 count.1.name.toList ++ ' ' :: (decimal count.2 ++ ['\n'])

/-- The listing as text: a line for each token; behind an empty line, if asked
for, a line for each count. -/
def textChars (listing : Listing) : List Char :=
  tokenLines 0 listing.tokens ++
    match listing.counts with
    | none => []
    | some counts => '\n' :: counts.flatMap countLine

/-- The tokens as a JSON array. -/
def tokensJson (tokens : List Token) : Json.Value := .array (tokens.map Token.toJson)

/-- The counts as a JSON object. -/
def countsJson (counts : List (Kind × Nat)) : Json.Value :=
  .record (counts.map fun (kind, n) => (kind.name, .natural n))

/-- The listing as a JSON document: the tokens, or, if counts are asked for, an
object with both. -/
def json (listing : Listing) : Json.Value :=
  match listing.counts with
  | none => tokensJson listing.tokens
  | some counts => .record [("tokens", tokensJson listing.tokens), ("stats", countsJson counts)]

end Listing

/-! ## The table of rules -/

/-- A pattern in words. -/
def Pattern.description : Pattern → List Char
  | literal text => quoteText text.toList
  | string => "'\"' ... '\"' or end of input".toList
  | number => "digits, optional '.' digits".toList
  | blank => "run of ' '".toList
  | identifier => "letter, then letters or digits".toList

/-- The line of a rule: its place in the table, its kind and its pattern. -/
def Rule.line (index : Nat) (rule : Rule) : List Char :=
  padLeft 3 (decimal index) ++ ' ' :: (padRight 12 rule.kind.name.toList ++
    ' ' :: (rule.pattern.description ++ ['\n']))

/-- The lines of the table. -/
def ruleLines : List Char :=
  ruleTable.zipIdx.flatMap fun (rule, index) => rule.line index

end PoxTokens
