import Mathlib.Data.List.TakeWhile
import PoxTokens.Pattern

/-!
# PoxTokens.Proofs.Spelling

How the lexemes of the patterns are spelled, and where a pattern stops.  For each
pattern one equivalence says when it takes exactly a given piece from the front of
a text: the piece is spelled as the pattern asks, and what follows the piece does
not prolong it.
-/

namespace PoxTokens

/-! ## Runs of a class of characters -/

/-- Does a text begin with a character of a class? -/
def leads (p : Char → Bool) : List Char → Bool
  | [] => false
  | c :: _ => p c

@[simp] theorem leads_nil (p : Char → Bool) : leads p [] = false := rfl

@[simp] theorem leads_cons (p : Char → Bool) (c : Char) (s : List Char) :
    leads p (c :: s) = p c := rfl

theorem takeWhile_eq_nil_of_not_leads {p : Char → Bool} {s : List Char} (h : leads p s = false) :
    s.takeWhile p = [] := by
  cases s with
  | nil => rfl
  | cons c s =>
      rw [leads_cons] at h
      simp [h]

/-- The run at the front of a text is the given piece exactly if the piece is in the
class and what follows does not begin with more of it. -/
theorem takeWhile_append_eq_left_iff {p : Char → Bool} {u rest : List Char} :
    (u ++ rest).takeWhile p = u ↔ (∀ c ∈ u, p c) ∧ leads p rest = false := by
  constructor
  · intro h
    have hu : ∀ c ∈ u, p c := fun c hc => List.mem_takeWhile_imp (h ▸ hc)
    refine ⟨hu, ?_⟩
    rw [List.takeWhile_append_of_pos hu, List.append_right_eq_self] at h
    cases rest with
    | nil => rfl
    | cons c rest =>
        rw [List.takeWhile_cons] at h
        split at h
        · contradiction
        · next hc => simpa using hc
  · intro h
    obtain ⟨hu, hrest⟩ := h
    rw [List.takeWhile_append_of_pos hu, takeWhile_eq_nil_of_not_leads hrest, List.append_nil]

/-- Behind a run there stands what does not prolong it. -/
theorem leads_dropWhile (p : Char → Bool) (s : List Char) : leads p (s.dropWhile p) = false := by
  have h : (s.takeWhile p ++ s.dropWhile p).takeWhile p = s.takeWhile p := by
    rw [List.takeWhile_append_dropWhile]
  exact (takeWhile_append_eq_left_iff.mp h).2

/-- Behind a run is what does not go on with it. -/
theorem dropWhile_append_of_not_leads {p : Char → Bool} {u rest : List Char}
    (hu : ∀ c ∈ u, p c) (hrest : leads p rest = false) : (u ++ rest).dropWhile p = rest := by
  have htake := takeWhile_append_eq_left_iff.mpr ⟨hu, hrest⟩
  have hall := List.takeWhile_append_dropWhile (p := p) (l := u ++ rest)
  rw [htake] at hall
  exact List.append_cancel_left hall

/-! ## Spellings -/

theorem isAlpha_iff_toNat {c : Char} :
    c.isAlpha ↔ 65 ≤ c.toNat ∧ c.toNat ≤ 90 ∨ 97 ≤ c.toNat ∧ c.toNat ≤ 122 := by
  have h : c.isAlpha = (decide (65 ≤ c.val ∧ c.val ≤ 90) ||
      decide (97 ≤ c.val) && decide (c.val ≤ 122)) := rfl
  rw [h]
  simp [UInt32.le_iff_toNat_le]

/-- One digit or more. -/
def IsDigits (u : List Char) : Prop := u ≠ [] ∧ ∀ d ∈ u, d.isDigit

theorem IsDigits.leads_append {u : List Char} (h : IsDigits u) (s : List Char) :
    leads Char.isDigit (u ++ s) = true := by
  cases u with
  | nil => exact absurd rfl h.1
  | cons c u => exact h.2 c List.mem_cons_self

theorem IsDigits.not_mem_point {u : List Char} (h : IsDigits u) : '.' ∉ u := by
  intro hmem
  have hpoint := h.2 '.' hmem
  contradiction

/-- Digits, or digits, a point and digits. -/
def IsNumber (u : List Char) : Prop :=
  IsDigits u ∨ ∃ ds es, IsDigits ds ∧ IsDigits es ∧ u = ds ++ '.' :: es

/-- A number begins with a digit. -/
theorem IsNumber.exists_cons {u : List Char} (h : IsNumber u) :
    ∃ c v, u = c :: v ∧ c.isDigit := by
  have hdigits : ∀ ds, IsDigits ds → ∃ c v, ds = c :: v ∧ c.isDigit := by
    intro ds hds
    cases ds with
    | nil => exact absurd rfl hds.1
    | cons c v => exact ⟨c, v, rfl, hds.2 c List.mem_cons_self⟩
  rcases h with hds | ⟨ds, es, hds, -, heq⟩
  · exact hdigits u hds
  · obtain ⟨c, v, hcons, hc⟩ := hdigits ds hds
    exact ⟨c, v ++ '.' :: es, by rw [heq, hcons, List.cons_append], hc⟩

/-- One space or more. -/
def IsBlank (u : List Char) : Prop := u ≠ [] ∧ ∀ c ∈ u, c = ' '

/-- A letter, then letters and digits. -/
def IsWord (u : List Char) : Prop := ∃ c w, u = c :: w ∧ c.isAlpha ∧ ∀ d ∈ w, d.isAlphanum

/-- All characters of a word are alphanumeric, also the first. -/
theorem IsWord.isAlphanum {u : List Char} (h : IsWord u) : ∀ c ∈ u, c.isAlphanum := by
  obtain ⟨c, w, heq, hc, hw⟩ := h
  rw [heq, List.forall_mem_cons]
  exact ⟨by simp [Char.isAlphanum, hc], hw⟩

/-- A quote, other characters and a closing quote. -/
def IsClosedString (u : List Char) : Prop := ∃ body, '"' ∉ body ∧ u = '"' :: (body ++ ['"'])

/-- A quote and other characters. -/
def IsOpenString (u : List Char) : Prop := ∃ body, '"' ∉ body ∧ u = '"' :: body

theorem not_isOpenString_of_ne {c : Char} (h : c ≠ '"') (v : List Char) :
    ¬IsOpenString (c :: v) := by
  intro hopen
  obtain ⟨body, -, heq⟩ := hopen
  exact h (List.cons.inj heq).1

/-- A string is not open once it is closed. -/
theorem IsClosedString.not_isOpenString {u : List Char} (h : IsClosedString u) :
    ¬IsOpenString u := by
  intro hopen
  obtain ⟨body, -, hclosed⟩ := h
  obtain ⟨body', hbody', heq⟩ := hopen
  rw [hclosed, List.cons.injEq] at heq
  exact hbody' (by rw [← heq.2]; simp)

theorem IsNumber.not_isOpenString {u : List Char} (h : IsNumber u) : ¬IsOpenString u := by
  obtain ⟨c, v, heq, hc⟩ := h.exists_cons
  rw [heq]
  exact not_isOpenString_of_ne (by intro hq; rw [hq] at hc; contradiction) v

theorem IsBlank.not_isOpenString {u : List Char} (h : IsBlank u) : ¬IsOpenString u := by
  cases u with
  | nil => exact absurd rfl h.1
  | cons c v =>
      rw [h.2 c List.mem_cons_self]
      exact not_isOpenString_of_ne (by decide) v

theorem IsWord.not_isOpenString {u : List Char} (h : IsWord u) : ¬IsOpenString u := by
  obtain ⟨c, v, heq, hc, -⟩ := h
  rw [heq]
  exact not_isOpenString_of_ne (by intro hq; rw [hq] at hc; contradiction) v

/-! ## Where patterns stop -/

namespace Pattern

/-- The text of a literal. -/
def text? : Pattern → Option String
  | literal text => some text
  | _ => none

/-- Does a text begin with a point and a digit? -/
def leadsFraction : List Char → Bool
  | '.' :: s => leads Char.isDigit s
  | _ => false

theorem leadsFraction_cons (c : Char) (s : List Char) :
    leadsFraction (c :: s) = (c == '.' && leads Char.isDigit s) := by
  by_cases hc : c = '.'
  · simp [hc, leadsFraction]
  · simp [hc, leadsFraction]

/-- There is a fraction at the front of a text exactly if a digit follows the point,
and it ends where the digits end. -/
theorem fraction_cases (s : List Char) :
    (fraction s = [] ∧ leadsFraction s = false) ∨
      ∃ es rest, s = '.' :: (es ++ rest) ∧ fraction s = '.' :: es ∧ IsDigits es ∧
        leads Char.isDigit rest = false := by
  unfold fraction
  split
  · next d t =>
      by_cases hd : d.isDigit
      · refine .inr ⟨d :: t.takeWhile Char.isDigit, t.dropWhile Char.isDigit, ?_, ?_, ?_,
          leads_dropWhile _ _⟩
        · rw [List.cons_append, List.takeWhile_append_dropWhile]
        · rw [if_pos hd]
        · exact ⟨by simp, List.forall_mem_cons.mpr ⟨hd, fun _ => List.mem_takeWhile_imp⟩⟩
      · refine .inl ⟨by rw [if_neg hd], ?_⟩
        simpa [leadsFraction] using hd
  · next h =>
      refine .inl ⟨rfl, ?_⟩
      unfold leadsFraction
      split
      · next t =>
          cases t with
          | nil => rfl
          | cons d t => exact absurd rfl (h d t)
      · rfl

/-- A fraction takes its point and all of its digits. -/
theorem fraction_append {es rest : List Char} (hes : IsDigits es)
    (hrest : leads Char.isDigit rest = false) : fraction ('.' :: (es ++ rest)) = '.' :: es := by
  obtain ⟨hne, hall⟩ := hes
  cases es with
  | nil => contradiction
  | cons d es =>
      obtain ⟨hd, hes⟩ := List.forall_mem_cons.mp hall
      rw [List.cons_append, fraction, if_pos hd, takeWhile_append_eq_left_iff.mpr ⟨hes, hrest⟩]

/-- Digits stop before anything but a digit or a fraction; digits with a fraction
stop before anything but a digit. -/
theorem munch_number_append_iff {u rest : List Char} (hu : u ≠ []) :
    number.munch (u ++ rest) = u ↔
      leads Char.isDigit rest = false ∧
        (IsDigits u ∧ leadsFraction rest = false ∨
          ∃ ds es, IsDigits ds ∧ IsDigits es ∧ u = ds ++ '.' :: es) := by
  constructor
  · intro h
    rw [munch] at h
    split at h
    · exact absurd h.symm hu
    · next hne =>
        have hds : IsDigits ((u ++ rest).takeWhile Char.isDigit) :=
          ⟨by simpa using hne, fun _ => List.mem_takeWhile_imp⟩
        have hsplit := List.takeWhile_append_dropWhile (p := Char.isDigit) (l := u ++ rest)
        rcases fraction_cases ((u ++ rest).dropWhile Char.isDigit) with
          ⟨hfrac, hno⟩ | ⟨es, t, hdrop, hfrac, hes, ht⟩
        · rw [hfrac, List.append_nil] at h
          obtain ⟨hall, hrest⟩ := takeWhile_append_eq_left_iff.mp h
          rw [dropWhile_append_of_not_leads hall hrest] at hno
          exact ⟨hrest, .inl ⟨⟨hu, hall⟩, hno⟩⟩
        · rw [hfrac] at h
          generalize (u ++ rest).takeWhile Char.isDigit = ds at h hds hsplit
          have hcat : u ++ rest = u ++ t := by
            rw [← hsplit, hdrop, ← h, List.append_assoc, List.cons_append]
          rw [List.append_cancel_left hcat]
          exact ⟨ht, .inr ⟨ds, es, hds, hes, h.symm⟩⟩
  · intro h
    obtain ⟨hrest, ⟨hds, hno⟩ | ⟨ds, es, hds, hes, rfl⟩⟩ := h
    · have hfrac : fraction rest = [] := by
        rcases fraction_cases rest with ⟨hfrac, -⟩ | ⟨es, t, rfl, -, hes, -⟩
        · exact hfrac
        · rw [leadsFraction, hes.leads_append] at hno
          contradiction
      rw [munch, takeWhile_append_eq_left_iff.mpr ⟨hds.2, hrest⟩,
        dropWhile_append_of_not_leads hds.2 hrest, hfrac, List.append_nil,
        if_neg (by simpa using hu)]
    · have hpoint : leads Char.isDigit ('.' :: (es ++ rest)) = false := by rw [leads_cons]; decide
      rw [List.append_assoc, List.cons_append, munch,
        takeWhile_append_eq_left_iff.mpr ⟨hds.2, hpoint⟩,
        dropWhile_append_of_not_leads hds.2 hpoint, fraction_append hes hrest,
        if_neg (by simpa using hds.1)]

/-- A literal is matched as a whole or not at all. -/
theorem munch_literal_append_iff {text : String} {u rest : List Char} (hu : u ≠ []) :
    (literal text).munch (u ++ rest) = u ↔ u = text.toList := by
  rw [munch]
  split
  · next h => exact eq_comm
  · next h =>
      constructor
      · intro hnil
        exact absurd hnil.symm hu
      · intro hu
        subst hu
        simp at h

/-- A blank is matched as far as the spaces go. -/
theorem munch_blank_append_iff {u rest : List Char} :
    blank.munch (u ++ rest) = u ↔ (∀ c ∈ u, c = ' ') ∧ leads (· == ' ') rest = false := by
  simp only [munch, takeWhile_append_eq_left_iff, beq_iff_eq]

/-- An identifier is matched as far as the word goes. -/
theorem munch_identifier_append_iff {u rest : List Char} (hu : u ≠ []) :
    identifier.munch (u ++ rest) = u ↔ IsWord u ∧ leads Char.isAlphanum rest = false := by
  cases u with
  | nil => contradiction
  | cons c w =>
      rw [List.cons_append, munch]
      by_cases hc : c.isAlpha
      · simp only [hc, if_true, List.cons.injEq, true_and, takeWhile_append_eq_left_iff, IsWord]
        constructor
        · intro h
          obtain ⟨hw, hrest⟩ := h
          exact ⟨⟨c, w, ⟨rfl, rfl⟩, hc, hw⟩, hrest⟩
        · intro h
          obtain ⟨⟨c', w', ⟨rfl, rfl⟩, -, hw⟩, hrest⟩ := h
          exact ⟨hw, hrest⟩
      · simp only [hc, if_false, Bool.false_eq_true]
        constructor
        · intro h; contradiction
        · intro h
          obtain ⟨⟨c', w', heq, hc', -⟩, -⟩ := h
          rw [List.cons.injEq] at heq
          rw [heq.1] at hc
          contradiction

theorem closingQuote_nil : closingQuote [] = [] := rfl

theorem munch_string_of_ne {c : Char} (h : c ≠ '"') (s : List Char) :
    string.munch (c :: s) = [] := by
  unfold munch
  split <;> simp_all

/-- A string ends with the quote that closes it, or with the text. -/
theorem munch_string_append_iff {u rest : List Char} (hu : u ≠ []) :
    string.munch (u ++ rest) = u ↔ IsClosedString u ∨ IsOpenString u ∧ rest = [] := by
  have hopen : ∀ body : List Char, '"' ∉ body ↔ ∀ c ∈ body, (c != '"') = true := by
    intro body
    simp only [bne_iff_ne]
    exact ⟨fun h c hc hq => h (hq ▸ hc), fun h hq => h _ hq rfl⟩
  constructor
  · intro h
    cases u with
    | nil => contradiction
    | cons c u =>
        by_cases hc : c = '"'
        · subst hc
          rw [List.cons_append, munch, List.cons.injEq] at h
          obtain ⟨-, h⟩ := h
          have hbody : '"' ∉ (u ++ rest).takeWhile (· != '"') :=
            (hopen _).mpr fun _ => List.mem_takeWhile_imp
          have hsplit := List.takeWhile_append_dropWhile (p := (· != '"')) (l := u ++ rest)
          have hstop := leads_dropWhile (· != '"') (u ++ rest)
          generalize (u ++ rest).takeWhile (· != '"') = body at h hbody hsplit
          cases hdrop : (u ++ rest).dropWhile (· != '"') with
          | nil =>
              rw [hdrop, closingQuote_nil, List.append_nil] at h
              subst h
              rw [hdrop, List.append_nil, List.self_eq_append_right] at hsplit
              exact .inr ⟨⟨body, hbody, rfl⟩, hsplit⟩
          | cons d t =>
              rw [hdrop, leads_cons, bne_eq_false_iff_eq] at hstop
              rw [hdrop, hstop, closingQuote] at h
              exact .inl ⟨body, hbody, by rw [h]⟩
        · rw [List.cons_append, munch_string_of_ne hc] at h
          contradiction
  · intro h
    rcases h with ⟨body, hbody, rfl⟩ | ⟨⟨body, hbody, rfl⟩, rfl⟩
    · have hquote : leads (· != '"') ('"' :: rest) = false := rfl
      rw [List.cons_append, List.append_assoc, List.singleton_append, munch,
        takeWhile_append_eq_left_iff.mpr ⟨(hopen body).mp hbody, hquote⟩,
        dropWhile_append_of_not_leads ((hopen body).mp hbody) hquote, closingQuote]
    · have hnil : leads (· != '"') [] = false := rfl
      rw [List.cons_append, munch, takeWhile_append_eq_left_iff.mpr ⟨(hopen body).mp hbody, hnil⟩,
        dropWhile_append_of_not_leads ((hopen body).mp hbody) hnil, closingQuote_nil,
        List.append_nil]

end Pattern

end PoxTokens
