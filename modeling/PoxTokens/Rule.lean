import PoxTokens.Pattern
import PoxTokens.Text.Bytes
import PoxTokens.Token

/-!
# PoxTokens.Rule

Rules pair a pattern with the kind of token it makes.  The table of Pox is an
ordered list: an earlier rule has priority over a later one.  The short
operators stand before the long ones, and identifiers stand last, so that every
reserved word outranks them.
-/

namespace PoxTokens

/-- A pattern with the kind of its matches. -/
structure Rule where
  kind : Kind
  pattern : Pattern
  deriving DecidableEq, Repr

namespace Rule

/-- The lexeme that the rule finds at the front of a text. -/
def lexeme? (rule : Rule) (s : List Char) : Option Lexeme :=
  let text := rule.pattern.munch s
  if text.isEmpty then none else some ⟨rule.kind, text⟩

/-- The token that the rule finds at a byte offset of a source.  There is none
past the end or inside a character. -/
def token? (rule : Rule) (source : String) (offset : Nat) : Option Token :=
  (splitAtByte? offset source.toList).bind fun (_, rest) =>
    (rule.lexeme? rest).map (Lexeme.at offset)

/-- The length in bytes of the match at a byte offset. -/
def matchLength? (rule : Rule) (source : String) (offset : Nat) : Option Nat :=
  (rule.token? source offset).map Token.length

/-- A rule for one fixed spelling. -/
def fixed (kind : Kind) (spelling : String) : Rule := ⟨kind, .literal spelling⟩

/-- A rule for a reserved word. -/
def word (w : Keyword) : Rule := fixed (.keyword w) w.spelling

end Rule

/-! ## The table of Pox -/

/-- Punctuation and the operators of one and two characters. -/
def symbolRules : List Rule :=
  [.fixed .leftParen "(", .fixed .rightParen ")",
   .fixed .leftBrace "\x7b", .fixed .rightBrace "\x7d",
   .fixed .comma ",", .fixed .dot ".", .fixed .minus "-", .fixed .plus "+",
   .fixed .semiColon ";", .fixed .slash "/", .fixed .star "*",
   .fixed .bang "!", .fixed .bangEqual "!=",
   .fixed .equal "=", .fixed .equalEqual "==",
   .fixed .greater ">", .fixed .greaterEqual ">=",
   .fixed .less "<", .fixed .lessEqual "<="]

/-- Strings, numbers and blanks. -/
def classRules : List Rule :=
  [⟨.string, .string⟩, ⟨.number, .number⟩, ⟨.whiteSpace, .blank⟩]

/-- The reserved words. -/
def wordRules : List Rule :=
  [.word .kwAnd, .word .kwClass, .word .kwElse, .word .kwNope, .word .kwFun, .word .kwFor,
   .word .kwIf, .word .kwNull, .word .kwOr, .word .kwPrint, .word .kwReturn, .word .kwSuper,
   .word .kwThis, .word .kwTroo, .word .kwVar, .word .kwWhile]

/-- The rules of Pox in order of priority. -/
def ruleTable : List Rule :=
  symbolRules ++ classRules ++ wordRules ++ [⟨.identifier, .identifier⟩]

/-- The rules of the table that match at a byte offset, each with its place in
the table and its token. -/
def matchingRules (source : String) (offset : Nat) : List (Nat × Token) :=
  ruleTable.zipIdx.filterMap fun (rule, index) =>
    (rule.token? source offset).map fun token => (index, token)

end PoxTokens
