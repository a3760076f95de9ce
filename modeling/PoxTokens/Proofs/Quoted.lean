import PoxTokens.Proofs.Digits
import PoxTokens.Text.Quoted

/-!
# PoxTokens.Proofs.Quoted

Quoted text can be read back, wherever it stands: behind its opening quote,
`unquote?` finds the text and what follows the closing quote.  And it is fit to be
shown: whatever the text holds, the quoted text holds printable characters only
(`isPrintable_of_mem_quoteText`), so it never breaks a line.
-/

namespace PoxTokens

/-! ## Escapes -/

/-- The letters behind a backslash, with the characters for which they stand. -/
def escapeLetters (mark : Char) : List (Char × Char) :=
  [('0', '\x00'), ('t', '\t'), ('r', '\r'), ('n', '\n'), ('\\', '\\'), (mark, mark)]

/-- A character is written as a letter behind a backslash, as its code point, or as itself. -/
theorem escapeChar_cases (mark c : Char) :
    (∃ letter, (letter, c) ∈ escapeLetters mark ∧ escapeChar mark c = ['\\', letter]) ∨
      escapeChar mark c = escapeCode c ∨
      escapeChar mark c = [c] ∧ c ≠ '\\' ∧ c ≠ mark ∧ isPrintable c := by
  unfold escapeChar escapeLetters
  split
  · next h => exact .inl ⟨'0', by simp [h], rfl⟩
  split
  · next h => exact .inl ⟨'t', by simp [h], rfl⟩
  split
  · next h => exact .inl ⟨'r', by simp [h], rfl⟩
  split
  · next h => exact .inl ⟨'n', by simp [h], rfl⟩
  split
  · next h => exact .inl ⟨'\\', by simp [h], rfl⟩
  split
  · next h => exact .inl ⟨mark, by simp [h], rfl⟩
  split
  · exact .inr (.inl rfl)
  · next hslash hmark hshown => exact .inr (.inr ⟨rfl, hslash, hmark, by simp_all⟩)

/-! ## Reading back -/

mutual

/-- The text up to the closing quote, and what follows the quote. -/
def unquote? : List Char → Option (List Char × List Char)
  | [] => none
  | '"' :: rest => some ([], rest)
  | '\\' :: '0' :: rest => (unquote? rest).map (Prod.map ('\x00' :: ·) id)
  | '\\' :: 't' :: rest => (unquote? rest).map (Prod.map ('\t' :: ·) id)
  | '\\' :: 'r' :: rest => (unquote? rest).map (Prod.map ('\r' :: ·) id)
  | '\\' :: 'n' :: rest => (unquote? rest).map (Prod.map ('\n' :: ·) id)
  | '\\' :: 'u' :: '{' :: rest => unquoteCode? 0 rest
  | '\\' :: c :: rest => (unquote? rest).map (Prod.map (c :: ·) id)
  | c :: rest => (unquote? rest).map (Prod.map (c :: ·) id)

/-- The same inside the braces of a code point, whose digits so far are a number. -/
def unquoteCode? (code : Nat) : List Char → Option (List Char × List Char)
  | [] => none
  | '}' :: rest => (unquote? rest).map (Prod.map (Char.ofNat code :: ·) id)
  | c :: rest => (hexDigit? c).bind fun d => unquoteCode? (16 * code + d) rest

end

/-- Each hexadecimal digit of a code is one step of its value. -/
theorem unquoteCode?_digitChar {d : Nat} (h : d < 16) (code : Nat) (rest : List Char) :
    unquoteCode? code (Nat.digitChar d :: rest) = unquoteCode? (16 * code + d) rest := by
  have hbrace : Nat.digitChar d ≠ '}' := by
    revert d
    decide
  rw [unquoteCode?, hexDigit?_digitChar h, Option.bind_some]
  exact hbrace

/-- All digits of a code together have its value. -/
theorem unquoteCode?_toDigits (n : Nat) (rest : List Char) :
    unquoteCode? 0 (Nat.toDigits 16 n ++ rest) = unquoteCode? n rest := by
  induction n using Nat.strong_induction_on generalizing rest with
  | _ n ih =>
    rw [Nat.toDigits_eq_if (by decide)]
    split
    · next hlt =>
      rw [List.singleton_append, unquoteCode?_digitChar hlt, Nat.mul_zero, Nat.zero_add]
    · next hge =>
      rw [List.append_assoc, ih (n / 16) (by omega), List.singleton_append,
        unquoteCode?_digitChar (Nat.mod_lt n (by decide)), Nat.div_add_mod]

theorem unquote?_escapeCode (c : Char) (rest : List Char) :
    unquote? (escapeCode c ++ rest) = (unquote? rest).map (Prod.map (c :: ·) id) := by
  simp only [escapeCode, List.cons_append, List.append_assoc, List.nil_append, unquote?]
  rw [unquoteCode?_toDigits, unquoteCode?, Char.ofNat_toNat]

/-- One character is read back, whatever follows it. -/
theorem unquote?_escapeChar (c : Char) (rest : List Char) :
    unquote? (escapeChar '"' c ++ rest) = (unquote? rest).map (Prod.map (c :: ·) id) := by
  rcases escapeChar_cases '"' c with ⟨letter, hescape, heq⟩ | hescape | ⟨hescape, hslash, hmark, -⟩
  · rw [heq]
    simp only [escapeLetters, List.mem_cons, Prod.mk.injEq, List.not_mem_nil, or_false] at hescape
    rcases hescape with ⟨rfl, rfl⟩ | ⟨rfl, rfl⟩ | ⟨rfl, rfl⟩ | ⟨rfl, rfl⟩ | ⟨rfl, rfl⟩ |
      ⟨rfl, rfl⟩ <;>
      simp [unquote?]
  · rw [hescape, unquote?_escapeCode]
  · rw [hescape, List.singleton_append, unquote?]
    · exact hmark
    all_goals simp [hslash]

/-- Escaped characters are read back up to the closing quote. -/
theorem unquote?_flatMap (cs rest : List Char) :
    unquote? (cs.flatMap (escapeChar '"') ++ '"' :: rest) = some (cs, rest) := by
  induction cs with
  | nil => simp [unquote?]
  | cons c cs ih =>
      rw [List.flatMap_cons, List.append_assoc, unquote?_escapeChar, ih]
      rfl

/-! ## Printable characters -/

theorem isPrintable_of_mem_escapeCode {c d : Char} (h : d ∈ escapeCode c) : isPrintable d := by
  simp only [escapeCode, List.mem_cons, List.mem_append, List.not_mem_nil, or_false] at h
  rcases h with rfl | rfl | rfl | hdigit | rfl
  · decide
  · decide
  · decide
  · obtain ⟨e, he, rfl⟩ := exists_of_mem_toDigits (by decide) hdigit
    clear hdigit
    revert e
    decide
  · decide

theorem isPrintable_of_mem_escapeChar {mark c d : Char} (hmark : isPrintable mark)
    (h : d ∈ escapeChar mark c) : isPrintable d := by
  rcases escapeChar_cases mark c with ⟨letter, hescape, heq⟩ | heq | ⟨heq, -, -, hc⟩
  · have hletter : isPrintable letter := by
      simp only [escapeLetters, List.mem_cons, Prod.mk.injEq, List.not_mem_nil, or_false]
        at hescape
      rcases hescape with ⟨rfl, -⟩ | ⟨rfl, -⟩ | ⟨rfl, -⟩ | ⟨rfl, -⟩ | ⟨rfl, -⟩ | ⟨rfl, -⟩ <;>
        first | exact hmark | decide
    rw [heq, List.mem_cons, List.mem_singleton] at h
    rcases h with rfl | rfl
    · decide
    · exact hletter
  · rw [heq] at h
    exact isPrintable_of_mem_escapeCode h
  · rw [heq, List.mem_singleton] at h
    rw [h]
    exact hc

/-- All of a quoted text is printable. -/
theorem isPrintable_of_mem_quoteText {cs : List Char} {d : Char} (h : d ∈ quoteText cs) :
    isPrintable d := by
  simp only [quoteText, List.mem_cons, List.mem_append, List.mem_flatMap, List.not_mem_nil,
    or_false] at h
  rcases h with rfl | ⟨c, -, hd⟩ | rfl
  · decide
  · exact isPrintable_of_mem_escapeChar (by decide) hd
  · decide

theorem isPrintable_of_mem_quoteChar {c d : Char} (h : d ∈ quoteChar c) : isPrintable d := by
  simp only [quoteChar, List.mem_cons, List.mem_append, List.not_mem_nil, or_false] at h
  rcases h with rfl | hd | rfl
  · decide
  · exact isPrintable_of_mem_escapeChar (by decide) hd
  · decide

end PoxTokens
