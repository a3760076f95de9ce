import PoxTokens.Json.Value
import PoxTokens.Text.Quoted

/-!
# PoxTokens.Json.Token

The first half of reading JSON: a text as a list of punctuation marks and
scalar values.  Blanks between them are spaces, tabs, line feeds and carriage
returns.
-/

namespace PoxTokens.Json

/-- A punctuation mark or a scalar value of a JSON text. -/
inductive Token where
  | beginArray
  | endArray
  | beginObject
  | endObject
  | colon
  | comma
  | scalar (v : Value)

/-! ## Strings -/

/-- A piece of a string: a character, or half of a surrogate pair. -/
inductive Piece where
  | char (c : Char)
  | half (unit : Nat)
  deriving DecidableEq, Repr

/-- The piece that an escape by a four-digit unit names. -/
def Piece.ofUnit (unit : Nat) : Piece :=
  if 0xd800 ≤ unit ∧ unit ≤ 0xdfff then .half unit else .char (Char.ofNat unit)

/-- The character that a surrogate pair names. -/
def pairChar? (high low : Nat) : Option Char :=
  if high ≤ 0xdbff ∧ 0xdc00 ≤ low then
    some (Char.ofNat (0x10000 + (high - 0xd800) * 0x400 + (low - 0xdc00)))
  else none

/-- The text of pieces; `none` if a half stands without its other half. -/
def joinPieces : List Piece → Option (List Char)
  | [] => some []
  | .char c :: rest => (joinPieces rest).map (c :: ·)
  | .half high :: .half low :: rest => do
    let c ← pairChar? high low
    let cs ← joinPieces rest
    pure (c :: cs)
  | .half _ :: _ => none

/-- The character that a one-letter escape names. -/
def simpleEscape? : Char → Option Char
  | '"' => some '"'
  | '\\' => some '\\'
  | '/' => some '/'
  | 'b' => some '\x08'
  | 'f' => some '\x0c'
  | 'n' => some '\n'
  | 'r' => some '\r'
  | 't' => some '\t'
  | _ => none

/-- The pieces of a string up to its closing quote, and the text behind it.
Characters below U+0020 must be escaped. -/
def stringPieces? : List Char → Option (List Piece × List Char)
  | [] => none
  | '"' :: rest => some ([], rest)
  | '\\' :: 'u' :: a :: b :: c :: d :: rest => do
    let unit ← hexValue? [a, b, c, d]
    let (pieces, last) ← stringPieces? rest
    pure (.ofUnit unit :: pieces, last)
  | '\\' :: c :: rest => do
    let char ← simpleEscape? c
    let (pieces, last) ← stringPieces? rest
    pure (.char char :: pieces, last)
  | c :: rest =>
    if c.toNat < 0x20 then none
    else do
      let (pieces, last) ← stringPieces? rest
      pure (.char c :: pieces, last)

/-- Behind a string there is no more text than there was. -/
theorem length_le_of_stringPieces? {s last : List Char} {pieces : List Piece}
    (h : stringPieces? s = some (pieces, last)) : last.length ≤ s.length := by
  fun_induction stringPieces? s generalizing pieces last with
  | case1 => simp at h
  | case2 rest => simp at h; obtain ⟨-, rfl⟩ := h; simp
  | case3 a b c d rest ih =>
    simp only [Option.bind_eq_bind, Option.bind_eq_some_iff, Option.pure_def,
      Option.some.injEq, Prod.mk.injEq] at h
    obtain ⟨_, -, ⟨p, l⟩, hp, -, rfl⟩ := h
    have := ih hp
    simp; omega
  | case4 c rest _ ih =>
    simp only [Option.bind_eq_bind, Option.bind_eq_some_iff, Option.pure_def,
      Option.some.injEq, Prod.mk.injEq] at h
    obtain ⟨_, -, ⟨p, l⟩, hp, -, rfl⟩ := h
    have := ih hp
    simp; omega
  | case5 => simp at h
  | case6 c rest _ _ _ _ ih =>
    simp only [Option.bind_eq_bind, Option.bind_eq_some_iff, Option.pure_def,
      Option.some.injEq, Prod.mk.injEq] at h
    obtain ⟨⟨p, l⟩, hp, -, rfl⟩ := h
    have := ih hp
    simp; omega

/-! ## Numbers and words -/

/-- May the character stand in a number? -/
def isNumberChar (c : Char) : Bool :=
  c.isDigit || c == '-' || c == '+' || c == '.' || c == 'e' || c == 'E'

/-- At least one digit, and nothing else. -/
def isDigits (cs : List Char) : Bool := !cs.isEmpty && cs.all Char.isDigit

/-- An exponent without its letter: digits, with or without a sign. -/
def isExponent : List Char → Bool
  | '+' :: cs => isDigits cs
  | '-' :: cs => isDigits cs
  | cs => isDigits cs

/-- What may stand behind the whole part of a number: nothing, a fraction, an
exponent, or both. -/
def isNumberTail : List Char → Bool
  | [] => true
  | '.' :: cs =>
    let (digits, exponent) := cs.span Char.isDigit
    !digits.isEmpty &&
      match exponent with
      | [] => true
      | c :: e => (c == 'e' || c == 'E') && isExponent e
  | c :: cs => (c == 'e' || c == 'E') && isExponent cs

/-- A whole part, which has no leading zero, and what may stand behind it. -/
def isUnsigned : List Char → Bool
  | '0' :: cs => isNumberTail cs
  | cs =>
    let (digits, tail) := cs.span Char.isDigit
    !digits.isEmpty && isNumberTail tail

/-- Is it a number of JSON? -/
def isNumber : List Char → Bool
  | '-' :: cs => isUnsigned cs
  | cs => isUnsigned cs

/-- The value that a word stands for. -/
def word? (cs : List Char) : Option Value :=
  if cs = ['n', 'u', 'l', 'l'] then some .null
  else if cs = ['t', 'r', 'u', 'e'] then some (.bool true)
  else if cs = ['f', 'a', 'l', 's', 'e'] then some (.bool false)
  else none

/-- The number or word that a run of characters is. -/
def bare? (cs : List Char) : Option Value :=
  if isNumber cs then some (.number (String.ofList cs)) else word? cs

/-- May the character stand in a number or a word? -/
def isBareChar (c : Char) : Bool := isNumberChar c || c.isAlphanum

/-! ## Texts -/

/-- Does the character separate tokens and nothing else? -/
def isBlank (c : Char) : Bool := c == ' ' || c == '\t' || c == '\n' || c == '\r'

/-- The punctuation mark that a character is. -/
def mark? : Char → Option Token
  | '[' => some .beginArray
  | ']' => some .endArray
  | '{' => some .beginObject
  | '}' => some .endObject
  | ':' => some .colon
  | ',' => some .comma
  | _ => none

/-- The tokens of a text; `none` if it holds something that is no token. -/
def tokens? (s : List Char) : Option (List Token) :=
  match s with
  | [] => some []
  | c :: rest =>
    if isBlank c then tokens? rest
    else match mark? c with
      | some mark => (tokens? rest).map (mark :: ·)
      | none =>
        if c = '"' then
          match _h : stringPieces? rest with
          | none => none
          | some (pieces, last) =>
            let content := (joinPieces pieces).map String.ofList
            (tokens? last).map (.scalar (.string content) :: ·)
        else if isBareChar c then do
          let v ← bare? (c :: rest.takeWhile isBareChar)
          (tokens? (rest.dropWhile isBareChar)).map (.scalar v :: ·)
        else none
termination_by s.length
decreasing_by
  · simp
  · simp
  · have := length_le_of_stringPieces? _h
    simp; omega
  · have := (List.dropWhile_suffix (l := rest) isBareChar).length_le
    simp; omega

end PoxTokens.Json
