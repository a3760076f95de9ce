import PoxTokens.LexError
import PoxTokens.Policy

/-!
# PoxTokens.Scan

Splitting a whole source into tokens.  `lexemes` cuts the text into lexemes
until no rule matches and returns what is left; `items` puts the lexemes in
their places and ends with the report on what is left, or with the end marker
if the options ask for one; `tokenize` is all or nothing.
-/

namespace PoxTokens

/-- How a source is scanned. -/
structure ScanOptions where
  policy : Policy := .longest
  /-- Close a complete scan with an empty end marker. -/
  emitEof : Bool := false
  /-- How many characters before the offset an error report keeps. -/
  contextWidth : Nat := 40
  deriving DecidableEq, Repr

/-- A result of a scan: a token, or the report that ends it. -/
inductive Item where
  | token (t : Token)
  | failure (e : LexError)
  deriving DecidableEq, Repr

/-- All tokens of a list of results, or its first report. -/
def Item.collect : List Item → Except LexError (List Token)
  | [] => .ok []
  | .token t :: rest => (collect rest).map (t :: ·)
  | .failure e :: _ => .error e

/-- Cuts a text into lexemes as far as rules match. -/
def lexemes (policy : Policy) (s : List Char) : List Lexeme × List Char :=
  match _h : policy.select ruleTable s with
  | none => ([], s)
  | some l =>
    let (ls, rest) := lexemes policy (s.drop l.text.length)
    (l :: ls, rest)
termination_by s.length
decreasing_by exact Policy.length_drop_lt _h

/-- Puts lexemes one behind the other, the first at a byte offset. -/
def place (position : Nat) : List Lexeme → List Token
  | [] => []
  | l :: ls => l.at position :: place (position + byteLength l.text) ls

/-- The marker at the end of a source. -/
def eofToken (source : List Char) : Token := ⟨byteLength source, "", .eof⟩

/-- The results of a scan in order: tokens, and at most one report, at the end. -/
def items (options : ScanOptions) (source : String) : List Item :=
  let (ls, rest) := lexemes options.policy source.toList
  let last : List Item :=
    if rest.isEmpty then
      if options.emitEof then [.token (eofToken source.toList)] else []
    else
      let stop := byteLength (ls.flatMap (·.text))
      [.failure (LexError.at source.toList stop options.contextWidth)]
  (place 0 ls).map .token ++ last

/-- The tokens of a source, or the report on the first place that no rule
recognises. -/
def tokenize (options : ScanOptions) (source : String) : Except LexError (List Token) :=
  Item.collect (items options source)

end PoxTokens
