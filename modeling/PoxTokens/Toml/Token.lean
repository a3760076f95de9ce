import PoxTokens.Text.Quoted

/-!
# PoxTokens.Toml.Token

A TOML text as a list of tokens.  Line breaks are tokens, since a statement ends
with its line, and so are the blanks between other tokens, since two brackets
that belong together must touch.  Comments leave no token.  A run of characters
that may stand in a key or in a value without quotes is one token, points
included; whether it is a key, a number or a date is decided where it stands.
-/

namespace PoxTokens.Toml

/-- A token of a TOML text. -/
inductive Token where
  | newline
  | blank
  /-- A run of characters without quotes. -/
  | bare (text : List Char)
  /-- A string on one line. -/
  | line (text : List Char)
  /-- A string in triple quotes. -/
  | block (text : List Char)
  | equals
  | comma
  | openBracket
  | closeBracket
  | openBrace
  | closeBrace
  deriving DecidableEq, Repr

/-! ## Line breaks -/

/-- Writes every line break as a line feed.  A carriage return may stand only
before a line feed. -/
def plainLines? : List Char → Option (List Char)
  | [] => some []
  | '\r' :: '\n' :: rest => (plainLines? rest).map ('\n' :: ·)
  | '\r' :: _ => none
  | c :: rest => (plainLines? rest).map (c :: ·)

/-! ## Strings -/

/-- May the character stand in a comment or a string on one line?  Control
characters may not, the tab excepted. -/
def isTextChar (c : Char) : Bool := c == '\t' || (0x20 ≤ c.toNat && c.toNat != 0x7f)

/-- Is it a space or a tab? -/
def isBlank (c : Char) : Bool := c == ' ' || c == '\t'

/-- The character with a code point, which must not be half of a surrogate
pair. -/
def codePoint? (digits : List Char) : Option Char :=
  (hexValue? digits).bind fun n =>
    if n < 0xd800 ∨ (0xdfff < n ∧ n < 0x110000) then some (Char.ofNat n) else none

/-- The character that an escape behind its backslash names, and what follows
the escape. -/
def escape? : List Char → Option (Char × List Char)
  | 'b' :: rest => some ('\x08', rest)
  | 't' :: rest => some ('\t', rest)
  | 'n' :: rest => some ('\n', rest)
  | 'f' :: rest => some ('\x0c', rest)
  | 'r' :: rest => some ('\r', rest)
  | '"' :: rest => some ('"', rest)
  | '\\' :: rest => some ('\\', rest)
  | 'u' :: a :: b :: c :: d :: rest => (codePoint? [a, b, c, d]).map (·, rest)
  | 'U' :: a :: b :: c :: d :: e :: f :: g :: h :: rest =>
    (codePoint? [a, b, c, d, e, f, g, h]).map (·, rest)
  | _ => none

/-- An escape takes a character at least. -/
theorem length_lt_of_escape? {s rest : List Char} {c : Char} (h : escape? s = some (c, rest)) :
    rest.length < s.length := by
  unfold escape? at h
  split at h
  all_goals simp only [Option.map_eq_some_iff, Option.some.injEq, Prod.mk.injEq, reduceCtorEq] at h
  all_goals first
    | (obtain ⟨-, rfl⟩ := h; simp only [List.length_cons]; omega)
    | (obtain ⟨_, -, -, rfl⟩ := h; simp only [List.length_cons]; omega)

/-- What follows a line break behind a backslash: blanks may stand before the
break, and blanks and breaks behind it are dropped. -/
def afterLineBreak? (s : List Char) : Option (List Char) :=
  match s.dropWhile isBlank with
  | '\n' :: rest => some (rest.dropWhile fun c => isBlank c || c == '\n')
  | _ => none

theorem length_lt_of_afterLineBreak? {s rest : List Char} (h : afterLineBreak? s = some rest) :
    rest.length < s.length := by
  unfold afterLineBreak? at h
  split at h
  · next r hr =>
    have h1 := (List.dropWhile_suffix (l := s) isBlank).length_le
    have h2 := (List.dropWhile_suffix (l := r) fun c => isBlank c || c == '\n').length_le
    rw [hr] at h1
    simp only [Option.some.injEq] at h
    subst h
    simp only [List.length_cons] at h1
    omega
  · simp at h

/-- The text of a string on one line up to its closing quote, and what follows
it.  Escapes are read only between double quotes. -/
def lineText? (quote : Char) (s : List Char) : Option (List Char × List Char) :=
  match s with
  | [] => none
  | c :: rest =>
    if c = quote then some ([], rest)
    else if c = '\\' ∧ quote = '"' then
      match _h : escape? rest with
      | none => none
      | some (e, rest') => (lineText? quote rest').map fun (text, last) => (e :: text, last)
    else if isTextChar c then
      (lineText? quote rest).map fun (text, last) => (c :: text, last)
    else none
termination_by s.length
decreasing_by
  · have := length_lt_of_escape? _h
    simp; omega
  · simp

/-- The end of a string in triple quotes: three quotes, and before them one or
two more that belong to the text. -/
def blockEnd? (quote : Char) (s : List Char) : Option (List Char × List Char) :=
  let quotes := (s.takeWhile (· == quote)).length
  if quotes < 3 then none
  else
    let count := min quotes 5
    some (List.replicate (count - 3) quote, s.drop count)

theorem length_le_of_blockEnd? {quote : Char} {s text rest : List Char}
    (h : blockEnd? quote s = some (text, rest)) : rest.length ≤ s.length := by
  unfold blockEnd? at h
  dsimp only at h
  split at h
  · simp at h
  · simp only [Option.some.injEq, Prod.mk.injEq] at h
    obtain ⟨-, rfl⟩ := h
    simp

/-- The text of a string in triple quotes up to its end, and what follows it. -/
def blockText? (quote : Char) (s : List Char) : Option (List Char × List Char) :=
  match s with
  | [] => none
  | c :: rest =>
    match blockEnd? quote (c :: rest) with
    | some ends => some ends
    | none =>
      if c = '\\' ∧ quote = '"' then
        match _hb : afterLineBreak? rest with
        | some rest' => blockText? quote rest'
        | none =>
          match _he : escape? rest with
          | none => none
          | some (e, rest') => (blockText? quote rest').map fun (text, last) => (e :: text, last)
      else if isTextChar c ∨ c = '\n' then
        (blockText? quote rest).map fun (text, last) => (c :: text, last)
      else none
termination_by s.length
decreasing_by
  · have := length_lt_of_afterLineBreak? _hb
    simp; omega
  · have := length_lt_of_escape? _he
    simp; omega
  · simp

/-- Drops a line break at the start of a string in triple quotes. -/
def dropFirstBreak : List Char → List Char
  | '\n' :: rest => rest
  | s => s

/-- The string token behind an opening quote, and what follows it. -/
def string? (quote : Char) (s : List Char) : Option (Token × List Char) :=
  if [quote, quote].isPrefixOf s then
    (blockText? quote (dropFirstBreak (s.drop 2))).map fun (text, last) => (.block text, last)
  else (lineText? quote s).map fun (text, last) => (.line text, last)

/-- Reading a text never gives anything back. -/
theorem length_le_of_lineText? {quote : Char} {s text last : List Char}
    (h : lineText? quote s = some (text, last)) : last.length ≤ s.length := by
  fun_induction lineText? quote s generalizing text last with
  | case1 => simp at h
  | case2 => simp at h; obtain ⟨-, rfl⟩ := h; simp
  | case3 => simp at h
  | case4 c rest _ _ e rest' he ih =>
    simp only [Option.map_eq_some_iff, Prod.exists, Prod.mk.injEq] at h
    obtain ⟨t, l, hl, -, rfl⟩ := h
    have := ih hl
    have := length_lt_of_escape? he
    simp; omega
  | case5 c rest _ _ _ ih =>
    simp only [Option.map_eq_some_iff, Prod.exists, Prod.mk.injEq] at h
    obtain ⟨t, l, hl, -, rfl⟩ := h
    have := ih hl
    simp; omega
  | case6 => simp at h

theorem length_le_of_blockText? {quote : Char} {s text last : List Char}
    (h : blockText? quote s = some (text, last)) : last.length ≤ s.length := by
  fun_induction blockText? quote s generalizing text last with
  | case1 => simp at h
  | case2 c rest ends he =>
    simp only [Option.some.injEq] at h
    subst h
    exact length_le_of_blockEnd? he
  | case3 c rest _ _ rest' hb ih =>
    have := ih h
    have := length_lt_of_afterLineBreak? hb
    simp; omega
  | case4 => simp at h
  | case5 c rest _ _ _ e rest' he ih =>
    simp only [Option.map_eq_some_iff, Prod.exists, Prod.mk.injEq] at h
    obtain ⟨t, l, hl, -, rfl⟩ := h
    have := ih hl
    have := length_lt_of_escape? he
    simp; omega
  | case6 c rest _ _ _ ih =>
    simp only [Option.map_eq_some_iff, Prod.exists, Prod.mk.injEq] at h
    obtain ⟨t, l, hl, -, rfl⟩ := h
    have := ih hl
    simp; omega
  | case7 => simp at h

theorem length_dropFirstBreak_le (s : List Char) : (dropFirstBreak s).length ≤ s.length := by
  unfold dropFirstBreak
  split <;> simp

theorem length_le_of_string? {quote : Char} {s last : List Char} {token : Token}
    (h : string? quote s = some (token, last)) : last.length ≤ s.length := by
  unfold string? at h
  split at h
  all_goals
    simp only [Option.map_eq_some_iff, Prod.exists, Prod.mk.injEq] at h
    obtain ⟨t, l, hl, -, rfl⟩ := h
  · have h1 := length_le_of_blockText? hl
    have h2 := length_dropFirstBreak_le (s.drop 2)
    simp only [List.length_drop] at h2
    omega
  · exact length_le_of_lineText? hl

/-! ## Runs -/

/-- May the character stand in a run without quotes? -/
def isBareChar (c : Char) : Bool :=
  c.isAlphanum || c == '_' || c == '-' || c == '+' || c == '.' || c == ':'

/-- Does the run have the form of a date, which a single space may part from a
time? -/
def looksLikeDate (cs : List Char) : Bool :=
  cs.length == 10 &&
    (cs.zipIdx.all fun (c, i) => if i = 4 ∨ i = 7 then c == '-' else c.isDigit)

/-- Does a time follow a space? -/
def timeFollows : List Char → Bool
  | ' ' :: a :: b :: ':' :: _ => a.isDigit && b.isDigit
  | _ => false

/-- The run at the front of a text, and what follows it.  A date takes along the
time behind a single space. -/
def bareRun (s : List Char) : List Char × List Char :=
  let run := s.takeWhile isBareChar
  let rest := s.dropWhile isBareChar
  if looksLikeDate run && timeFollows rest then
    let time := rest.tail
    (run ++ ' ' :: time.takeWhile isBareChar, time.dropWhile isBareChar)
  else (run, rest)

/-- A run of bare characters takes the first of them at least. -/
theorem length_bareRun_lt {c : Char} {s : List Char} (h : isBareChar c) :
    (bareRun (c :: s)).2.length < (c :: s).length := by
  have h1 := (List.dropWhile_suffix (l := s) isBareChar).length_le
  unfold bareRun
  simp only [List.dropWhile_cons_of_pos h]
  split
  · have h2 := (List.dropWhile_suffix (l := (s.dropWhile isBareChar).tail) isBareChar).length_le
    simp only [List.length_tail] at h2
    simp only [List.length_cons]
    omega
  · simp only [List.length_cons]
    omega

/-! ## Texts -/

/-- The token that a character is by itself. -/
def mark? : Char → Option Token
  | '\n' => some .newline
  | '=' => some .equals
  | ',' => some .comma
  | '[' => some .openBracket
  | ']' => some .closeBracket
  | '{' => some .openBrace
  | '}' => some .closeBrace
  | _ => none

/-- The tokens of a text with plain line breaks; `none` if it holds something
that is no token. -/
def tokens? (s : List Char) : Option (List Token) :=
  match s with
  | [] => some []
  | c :: rest =>
    match mark? c with
    | some mark => (tokens? rest).map (mark :: ·)
    | none =>
      if isBlank c then (tokens? (rest.dropWhile isBlank)).map (.blank :: ·)
      else if c = '#' then
        if (rest.takeWhile (· != '\n')).all isTextChar then tokens? (rest.dropWhile (· != '\n'))
        else none
      else if c = '"' ∨ c = '\'' then
        match _hs : string? c rest with
        | none => none
        | some (token, last) => (tokens? last).map (token :: ·)
      else if _hb : isBareChar c then
        (tokens? (bareRun (c :: rest)).2).map (.bare (bareRun (c :: rest)).1 :: ·)
      else none
termination_by s.length
decreasing_by
  · simp
  · have := (List.dropWhile_suffix (l := rest) isBlank).length_le
    simp; omega
  · have := (List.dropWhile_suffix (l := rest) (· != '\n')).length_le
    simp; omega
  · have := length_le_of_string? _hs
    simp; omega
  · exact length_bareRun_lt _hb

end PoxTokens.Toml
