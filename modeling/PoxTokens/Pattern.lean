/-!
# PoxTokens.Pattern

What a rule recognises at the front of a text.  A pattern takes the longest
beginning of the text that it accepts; the empty list says that it accepts
none, since no match is empty.  Letters and digits are the ASCII ones: Pox has
no others outside of strings.
-/

namespace PoxTokens

/-- A way to recognise the beginning of a text. -/
inductive Pattern where
  /-- Exactly this text, whatever follows it. -/
  | literal (text : String)
  /-- From a double quote to the next one, or to the end of the text. -/
  | string
  /-- Digits, then a point and more digits if a digit follows the point. -/
  | number
  /-- Spaces. -/
  | blank
  /-- A letter, then letters and digits. -/
  | identifier
  deriving DecidableEq, Repr

namespace Pattern

/-- The closing quote, if the text starts with one. -/
def closingQuote : List Char → List Char
  | '"' :: _ => ['"']
  | _ => []

/-- A point and the digits after it, if there is at least one digit. -/
def fraction : List Char → List Char
  | '.' :: d :: s => if d.isDigit then '.' :: d :: s.takeWhile Char.isDigit else []
  | _ => []

/-- The longest beginning of the text that the pattern accepts. -/
def munch : Pattern → List Char → List Char
  | literal text, s => if text.toList.isPrefixOf s then text.toList else []
  | string, '"' :: s =>
    '"' :: (s.takeWhile (· != '"') ++ closingQuote (s.dropWhile (· != '"')))
  | string, _ => []
  | number, s =>
    if (s.takeWhile Char.isDigit).isEmpty then []
    else s.takeWhile Char.isDigit ++ fraction (s.dropWhile Char.isDigit)
  | blank, s => s.takeWhile (· == ' ')
  | identifier, c :: s => if c.isAlpha then c :: s.takeWhile Char.isAlphanum else []
  | identifier, [] => []

/-! ## A match is a beginning of the text -/

/-- What closes a string is taken from the text as it stands there. -/
theorem closingQuote_isPrefix (s : List Char) : closingQuote s <+: s := by
  unfold closingQuote
  split
  · exact ⟨_, rfl⟩
  · exact List.nil_prefix

theorem fraction_isPrefix (s : List Char) : fraction s <+: s := by
  unfold fraction
  split
  · split
    · simpa using List.takeWhile_prefix _
    · exact List.nil_prefix
  · exact List.nil_prefix

/-- A beginning of what is left after the first run extends that run. -/
theorem takeWhile_append_isPrefix {p : Char → Bool} {s t : List Char}
    (h : t <+: s.dropWhile p) : s.takeWhile p ++ t <+: s := by
  obtain ⟨u, hu⟩ := h
  exact ⟨u, by rw [List.append_assoc, hu, List.takeWhile_append_dropWhile]⟩

/-- What a pattern takes is where the text begins. -/
theorem munch_isPrefix (p : Pattern) (s : List Char) : p.munch s <+: s := by
  unfold munch
  split
  · split
    · next h => exact List.isPrefixOf_iff_prefix.1 h
    · exact List.nil_prefix
  · exact List.cons_prefix_cons.2 ⟨rfl, takeWhile_append_isPrefix (closingQuote_isPrefix _)⟩
  · exact List.nil_prefix
  · split
    · exact List.nil_prefix
    · exact takeWhile_append_isPrefix (fraction_isPrefix _)
  · exact List.takeWhile_prefix _
  · split
    · exact List.cons_prefix_cons.2 ⟨rfl, List.takeWhile_prefix _⟩
    · exact List.nil_prefix
  · exact List.nil_prefix

end Pattern

end PoxTokens
