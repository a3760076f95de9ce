/-!
# PoxTokens.Token.Kind

The closed set of token kinds of Pox.  Punctuation, operators and reserved
words have one spelling each; strings, numbers, identifiers and blanks are
classes of lexemes; the end marker has the empty lexeme.  The Boolean literals
of the language are the reserved words `nope` and `troo`.
-/

namespace PoxTokens

/-! ## Reserved words -/

/-- The sixteen reserved words, in alphabetical order but for `troo`, which
stands beside `nope`. -/
inductive Keyword where
  | kwAnd | kwClass | kwElse | kwNope | kwTroo | kwFun | kwFor | kwIf
  | kwNull | kwOr | kwPrint | kwReturn | kwSuper | kwThis | kwVar | kwWhile
  deriving DecidableEq, Repr

namespace Keyword

/-- Every reserved word once. -/
def all : List Keyword :=
  [kwAnd, kwClass, kwElse, kwNope, kwTroo, kwFun, kwFor, kwIf,
   kwNull, kwOr, kwPrint, kwReturn, kwSuper, kwThis, kwVar, kwWhile]

/-- The word as a program writes it. -/
def spelling : Keyword → String
  | kwAnd => "and" | kwClass => "class" | kwElse => "else" | kwNope => "nope"
  | kwTroo => "troo" | kwFun => "fun" | kwFor => "for" | kwIf => "if"
  | kwNull => "null" | kwOr => "or" | kwPrint => "print" | kwReturn => "return"
  | kwSuper => "super" | kwThis => "this" | kwVar => "var" | kwWhile => "while"

/-- The word as listings name it. -/
def name : Keyword → String
  | kwAnd => "And" | kwClass => "Class" | kwElse => "Else" | kwNope => "Nope"
  | kwTroo => "Troo" | kwFun => "Fun" | kwFor => "For" | kwIf => "If"
  | kwNull => "Null" | kwOr => "Or" | kwPrint => "Print" | kwReturn => "Return"
  | kwSuper => "Super" | kwThis => "This" | kwVar => "Var" | kwWhile => "While"

/-- The word as a diagnostic shows it. -/
def label : Keyword → String
  | kwAnd => "And" | kwClass => "Class" | kwElse => "Else" | kwNope => "Nope"
  | kwTroo => "Troo" | kwFun => "Fun" | kwFor => "For" | kwIf => "If"
  | kwNull => "Null" | kwOr => "Or" | kwPrint => "Print" | kwReturn => "Return"
  | kwSuper => "Super" | kwThis => "This" | kwVar => "Var" | kwWhile => "While"

/-- The reserved word with exactly this spelling, looked up in a list of its own. -/
def ofSpelling? : String → Option Keyword
  | "and" => some kwAnd | "class" => some kwClass | "else" => some kwElse
  | "nope" => some kwNope | "troo" => some kwTroo | "fun" => some kwFun
  | "for" => some kwFor | "if" => some kwIf | "null" => some kwNull
  | "or" => some kwOr | "print" => some kwPrint | "return" => some kwReturn
  | "super" => some kwSuper | "this" => some kwThis | "var" => some kwVar
  | "while" => some kwWhile
  | _ => none

end Keyword

/-! ## Kinds -/

/-- What a token is. -/
inductive Kind where
  | leftParen | rightParen | leftBrace | rightBrace | comma | dot | semiColon
  | minus | plus | slash | star | bang | bangEqual | equal | equalEqual
  | greater | greaterEqual | less | lessEqual
  | string | number | identifier
  | keyword (word : Keyword)
  | whiteSpace
  | eof
  deriving DecidableEq, Repr

namespace Kind

/-- Every kind once, in the order in which kinds are sorted. -/
def all : List Kind :=
  [leftParen, rightParen, leftBrace, rightBrace, comma, dot, semiColon,
   minus, plus, slash, star, bang, bangEqual, equal, equalEqual,
   greater, greaterEqual, less, lessEqual, string, number, identifier]
  ++ Keyword.all.map keyword ++ [whiteSpace, eof]

/-- The name of the kind in listings. -/
def name : Kind → String
  | leftParen => "LeftParen" | rightParen => "RightParen"
  | leftBrace => "LeftBrace" | rightBrace => "RightBrace"
  | comma => "Comma" | dot => "Dot" | semiColon => "SemiColon"
  | minus => "Minus" | plus => "Plus" | slash => "Slash" | star => "Star"
  | bang => "Bang" | bangEqual => "BangEqual"
  | equal => "Equal" | equalEqual => "EqualEqual"
  | greater => "Greater" | greaterEqual => "GreaterEqual"
  | less => "Less" | lessEqual => "LessEqual"
  | string => "String" | number => "Number" | identifier => "Identifier"
  | keyword word => word.name
  | whiteSpace => "WhiteSpace"
  | eof => "EOF"

/-- The kind with exactly this name. -/
def ofName? (name : String) : Option Kind :=
  all.find? (·.name == name)

/-- The kind as a diagnostic shows it. -/
def label : Kind → String
  | leftParen => "LeftParen" | rightParen => "RightParen"
  | leftBrace => "LeftBrace" | rightBrace => "RightBrace"
  | comma => "Comma" | dot => "Dot" | semiColon => "SemiColon"
  | minus => "Minus" | plus => "Plus" | slash => "Slash" | star => "Star"
  | bang => "Bang" | bangEqual => "BangEqual"
  | equal => "Equal" | equalEqual => "EqualEqual"
  | greater => "Greater" | greaterEqual => "GreaterEqual"
  | less => "Less" | lessEqual => "LessEqual"
  | string => "String" | number => "Number" | identifier => "Identifier"
  | keyword word => word.label
  | whiteSpace => "WhiteSpace"
  | eof => "Eof"

/-- The kind as JSON documents store it: its label, but for the end marker. -/
def storedName : Kind → String
  | eof => "EOF"
  | kind => kind.label

/-- Documents and listings name every kind alike. -/
theorem storedName_eq_name (kind : Kind) : kind.storedName = kind.name := by
  cases kind with
  | keyword word => cases word <;> rfl
  | _ => rfl

/-- The place of the kind in `all`. -/
def rank (kind : Kind) : Nat := all.idxOf kind

/-- Sorts kinds by rank; equal kinds keep their order. -/
def sort (kinds : List Kind) : List Kind :=
  kinds.mergeSort fun a b => a.rank ≤ b.rank

/-- Is it a reserved word, one of the Boolean literals included? -/
def isKeyword : Kind → Bool
  | keyword _ => true
  | _ => false

/-- Is it a string or a number? -/
def isLiteral : Kind → Bool
  | string | number => true
  | _ => false

/-- Does it mean nothing to a reader of the program?  Only blanks do not. -/
def isTrivia : Kind → Bool
  | whiteSpace => true
  | _ => false

end Kind

end PoxTokens
