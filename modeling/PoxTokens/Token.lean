import PoxTokens.Text.Quoted
import PoxTokens.Token.Kind

/-!
# PoxTokens.Token

Lexemes and tokens.  A lexeme is a piece of text with its kind; a token is a
lexeme with the byte offset at which it stands.
-/

namespace PoxTokens

/-- A piece of text together with what it is. -/
structure Lexeme where
  kind : Kind
  text : List Char
  deriving DecidableEq, Repr

/-- A lexeme in its place in a source text. -/
structure Token where
  /-- Byte offset of the first character. -/
  position : Nat
  /-- The exact text. -/
  lexeme : String
  kind : Kind
  deriving DecidableEq, Repr

namespace Token

/-- Length of the lexeme in bytes. -/
def length (t : Token) : Nat := t.lexeme.utf8ByteSize

/-- Byte offset just past the lexeme. -/
def stop (t : Token) : Nat := t.position + t.length

/-- The byte offsets where the lexeme starts and stops. -/
def span (t : Token) : Nat × Nat := (t.position, t.stop)

/-- Is the lexeme empty?  Among scanned tokens only the end marker is. -/
def isEmpty (t : Token) : Bool := t.lexeme.isEmpty

/-- The token in one line: kind, quoted lexeme, offset. -/
def render (t : Token) : String :=
  s!"{t.kind.name}({quotedString t.lexeme})@{t.position}"

end Token

/-- Puts a lexeme at a byte offset. -/
def Lexeme.at (position : Nat) (l : Lexeme) : Token :=
  ⟨position, String.ofList l.text, l.kind⟩

/-- Keeps the tokens that mean something to a reader of the program. -/
def significant (tokens : List Token) : List Token :=
  tokens.filter fun t => !t.kind.isTrivia

end PoxTokens
