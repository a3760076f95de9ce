import Mathlib.Data.List.Chain
import Mathlib.Data.List.Infix
import PoxTokens.Proofs.Cutting
import PoxTokens.Proofs.LexemeSelection

/-!
# PoxTokens.Proofs.Separable

Which lists of lexemes are the results of scans.  Written one behind the other, the
lexemes are found again exactly if each is spelled as its kind asks, only the last is
an open string, and no lexeme prolongs the one before it (`cuts_iff_separable`).  All
conditions but one are on neighbours; a number is also prolonged by a point and a
number behind it.

The two policies differ in the conditions only.  `tokenize_longest_flatMap_iff` states them
for `longest`, `tokenize_firstMatch_flatMap_iff` for `firstMatch`.
-/

namespace PoxTokens

/-! ## Conditions -/

/-- Two neighbours that a policy does not take together. -/
structure Policy.Apart (policy : Policy) (a b : Lexeme) : Prop where
  word : a.kind = .identifier ∨ policy = .longest ∧ a.kind.isKeyword →
    b.kind ≠ .identifier ∧ ¬b.kind.isKeyword ∧ b.kind ≠ .number
  number : a.kind = .number → b.kind ≠ .number
  blank : a.kind = .whiteSpace → b.kind ≠ .whiteSpace
  operator : policy = .longest → a.kind ∈ [.bang, .equal, .greater, .less] →
    b.kind ∉ [.equal, .equalEqual]

/-- Three lexemes that together look like a number with a fraction. -/
def LooksFractional (a b c : Lexeme) : Prop :=
  a.kind = .number ∧ '.' ∉ a.text ∧ b.kind = .dot ∧ c.kind = .number

/-- Lexemes that a policy finds again when they are written one behind the other. -/
structure Separable (policy : Policy) (ls : List Lexeme) : Prop where
  spelled : ∀ l ∈ ls, l.kind.Spells l.text ∧ policy.Yields l.kind l.text
  closed : ∀ l ∈ ls.dropLast, ¬IsOpenString l.text
  apart : ls.IsChain policy.Apart
  not_fractional : ∀ a b c, [a, b, c] <:+: ls → ¬LooksFractional a b c

/-- The conditions on a lexeme and those behind it. -/
structure Policy.Joins (policy : Policy) (l : Lexeme) (ls : List Lexeme) : Prop where
  closed : IsOpenString l.text → ls = []
  apart : ∀ m ∈ ls.head?, policy.Apart l m
  not_fractional : ∀ b c t, ls = b :: c :: t → ¬LooksFractional l b c

theorem separable_nil (policy : Policy) : Separable policy [] where
  spelled := by simp
  closed := by simp
  apart := .nil
  not_fractional a b c h := by simp at h

/-- Lexemes can be told apart if the first is spelled well and joins the others, and these can be
told apart. -/
theorem separable_cons_iff {policy : Policy} {l : Lexeme} {ls : List Lexeme} :
    Separable policy (l :: ls) ↔
      (l.kind.Spells l.text ∧ policy.Yields l.kind l.text) ∧ policy.Joins l ls ∧
        Separable policy ls := by
  constructor
  · intro h
    obtain ⟨hl, hls⟩ := List.forall_mem_cons.mp h.spelled
    obtain ⟨hhead, htail⟩ := List.isChain_cons.mp h.apart
    refine ⟨hl, ⟨fun hopen => ?_, hhead, fun b c t hbc => ?_⟩, ⟨hls, fun m hm => ?_, htail, ?_⟩⟩
    · cases ls with
      | nil => rfl
      | cons m ms => exact absurd hopen (h.closed l (by simp))
    · refine h.not_fractional l b c ⟨[], t, ?_⟩
      rw [hbc]
      rfl
    · cases ls with
      | nil => simp at hm
      | cons k ks => exact h.closed m (by rw [List.dropLast_cons_cons]; exact .tail l hm)
    · exact fun a b c hinfix => h.not_fractional a b c (List.infix_cons hinfix)
  · intro h
    obtain ⟨hl, hjoins, hls⟩ := h
    refine ⟨List.forall_mem_cons.mpr ⟨hl, hls.spelled⟩, ?_,
      List.isChain_cons.mpr ⟨hjoins.apart, hls.apart⟩, fun a b c hinfix => ?_⟩
    · cases ls with
      | nil => simp
      | cons m ms =>
          rw [List.dropLast_cons_cons, List.forall_mem_cons]
          exact ⟨fun hopen => List.cons_ne_nil m ms (hjoins.closed hopen), hls.closed⟩
    · rcases List.infix_cons_iff.mp hinfix with hprefix | hinfix
      · obtain ⟨t, ht⟩ := hprefix
        rw [List.cons_append, List.cons.injEq] at ht
        rw [ht.1]
        exact hjoins.not_fractional b c t ht.2.symm
      · exact hls.not_fractional a b c hinfix

/-! ## First characters -/

/-- The first character of a lexeme tells its kind from others. -/
theorem Kind.Spells.exists_cons {kind : Kind} {u : List Char} (h : kind.Spells u) :
    ∃ c v, u = c :: v ∧ c.isDigit = (kind == .number) ∧
      c.isAlpha = (kind == .identifier || kind.isKeyword) ∧ (c == ' ') = (kind == .whiteSpace) ∧
      (c == '=') = (kind == .equal || kind == .equalEqual) ∧ (c == '.') = (kind == .dot) := by
  cases h with
  | fixed h =>
      cases kind with
      | keyword w =>
          cases h
          cases w <;> exact ⟨_, _, rfl, rfl, rfl, rfl, rfl, rfl⟩
      | string => contradiction
      | number => contradiction
      | identifier => contradiction
      | whiteSpace => contradiction
      | eof => contradiction
      | _ =>
          cases h
          exact ⟨_, _, rfl, rfl, rfl, rfl, rfl, rfl⟩
  | number h =>
      obtain ⟨c, v, heq, hc⟩ := h.exists_cons
      refine ⟨c, v, heq, hc, not_isAlpha_of_isDigit hc, ?_, ?_, ?_⟩
      all_goals
        refine beq_false_of_ne fun hne => ?_
        rw [hne] at hc
        contradiction
  | blank h =>
      cases u with
      | nil => exact absurd rfl h.1
      | cons c v =>
          rw [h.2 c List.mem_cons_self]
          exact ⟨' ', v, rfl, rfl, rfl, rfl, rfl, rfl⟩
  | word h =>
      obtain ⟨c, v, heq, hc, -⟩ := h
      refine ⟨c, v, heq, not_isDigit_of_isAlpha hc, hc, ?_, ?_, ?_⟩
      all_goals
        refine beq_false_of_ne fun hne => ?_
        rw [hne] at hc
        contradiction
  | closedString h =>
      obtain ⟨body, -, heq⟩ := h
      exact ⟨'"', _, heq, rfl, rfl, rfl, rfl, rfl⟩
  | openString h =>
      obtain ⟨body, -, heq⟩ := h
      exact ⟨'"', _, heq, rfl, rfl, rfl, rfl, rfl⟩

section
variable {kind : Kind} {u : List Char} (h : kind.Spells u) (s : List Char)
include h

theorem Kind.Spells.ne_nil : u ≠ [] := by
  obtain ⟨c, v, heq, -⟩ := h.exists_cons
  rw [heq]
  exact List.cons_ne_nil c v

/-- Only a number begins with a digit. -/
theorem Kind.Spells.leads_digit :
    leads Char.isDigit (u ++ s) = false ↔ kind ≠ .number := by
  obtain ⟨c, v, heq, hc, -⟩ := h.exists_cons
  rw [heq, List.cons_append, leads_cons, hc, beq_eq_false_iff_ne]

/-- Only a blank begins with a space. -/
theorem Kind.Spells.leads_space :
    leads (· == ' ') (u ++ s) = false ↔ kind ≠ .whiteSpace := by
  obtain ⟨c, v, heq, -, -, hc, -⟩ := h.exists_cons
  rw [heq, List.cons_append, leads_cons, hc, beq_eq_false_iff_ne]

/-- Only words and numbers begin with an alphanumeric character. -/
theorem Kind.Spells.leads_alphanum :
    leads Char.isAlphanum (u ++ s) = false ↔
      kind ≠ .identifier ∧ ¬kind.isKeyword ∧ kind ≠ .number := by
  obtain ⟨c, v, heq, hdigit, halpha, -⟩ := h.exists_cons
  rw [heq, List.cons_append, leads_cons, Char.isAlphanum, hdigit, halpha]
  simp [and_assoc]

/-- Only two kinds begin with an equals sign. -/
theorem Kind.Spells.leads_equal :
    leads (· == '=') (u ++ s) = false ↔ kind ∉ [.equal, .equalEqual] := by
  obtain ⟨c, v, heq, -, -, -, hc, -⟩ := h.exists_cons
  rw [heq, List.cons_append, leads_cons, hc]
  simp

/-- A fraction can only be read across a point and what follows it. -/
theorem Kind.Spells.leadsFraction :
    Pattern.leadsFraction (u ++ s) = false ↔ (kind = .dot → leads Char.isDigit s = false) := by
  by_cases hdot : kind = .dot
  · rw [hdot] at h
    have hspelling : Kind.dot.spelling? = some "." := rfl
    have hu : u = ['.'] := (Kind.spells_iff_of_spelling? hspelling).mp h
    rw [hu, hdot, List.singleton_append, Pattern.leadsFraction]
    exact ⟨fun hdigit _ => hdigit, fun hdigit => hdigit rfl⟩
  · obtain ⟨c, v, heq, -, -, -, -, hc⟩ := h.exists_cons
    refine iff_of_true ?_ fun hkind => absurd hkind hdot
    rw [beq_false_of_ne hdot] at hc
    rw [heq, List.cons_append, Pattern.leadsFraction_cons, hc, Bool.false_and]

end

/-! ## Neighbours -/

/-- The symbols to which an equals sign can belong. -/
theorem Kind.withEqual?_ne_none_iff {kind : Kind} :
    kind.withEqual? ≠ none ↔ kind ∈ [.bang, .equal, .greater, .less] := by
  cases kind <;> simp [withEqual?]

/-- What is spelled behind a lexeme does not prolong it exactly if the lexemes behind it
join. -/
theorem Policy.stops_iff_joins {policy : Policy} {l : Lexeme} {ls : List Lexeme}
    (hls : ∀ m ∈ ls, m.kind.Spells m.text) :
    policy.Stops l.kind l.text (ls.flatMap (·.text)) ↔ policy.Joins l ls := by
  cases ls with
  | nil =>
      exact iff_of_true stops_nil ⟨fun _ => rfl, nofun, nofun⟩
  | cons m ms =>
      obtain ⟨hm, hms⟩ := List.forall_mem_cons.mp hls
      rw [List.flatMap_cons]
      constructor
      · intro h
        refine ⟨fun hopen => ?_, fun k hk => ?_, fun b c t hbc hfractional => ?_⟩
        · have hnil := h.string hopen
          exact absurd (List.append_eq_nil_iff.mp hnil).1 hm.ne_nil
        · rw [List.head?_cons, Option.mem_some_iff] at hk
          rw [← hk]
          exact
            { word := fun hw => (hm.leads_alphanum _).mp (h.word hw)
              number := fun hn => (hm.leads_digit _).mp (h.number hn)
              blank := fun hb => (hm.leads_space _).mp (h.blank hb)
              operator := fun hp ho =>
                (hm.leads_equal _).mp (h.operator hp (Kind.withEqual?_ne_none_iff.mpr ho)) }
        · obtain ⟨hnumber, hpoint, hdot, hc⟩ := hfractional
          obtain ⟨hmb, hmsc⟩ := List.cons.inj hbc
          have hdigit := (hm.leadsFraction _).mp (h.fraction hnumber hpoint) (hmb ▸ hdot)
          have hcs : c.kind.Spells c.text := hms c (by rw [hmsc]; exact List.mem_cons_self)
          rw [hmsc, List.flatMap_cons] at hdigit
          exact (hcs.leads_digit _).mp hdigit hc
      · intro h
        have hapart : policy.Apart l m := h.apart m rfl
        exact
          { string := fun hopen => absurd (h.closed hopen) (List.cons_ne_nil m ms)
            number := fun hn => (hm.leads_digit _).mpr (hapart.number hn)
            blank := fun hb => (hm.leads_space _).mpr (hapart.blank hb)
            word := fun hw => (hm.leads_alphanum _).mpr (hapart.word hw)
            operator := fun hp ho =>
              (hm.leads_equal _).mpr (hapart.operator hp (Kind.withEqual?_ne_none_iff.mp ho))
            fraction := fun hnumber hpoint => by
              refine (hm.leadsFraction _).mpr fun hdot => ?_
              cases ms with
              | nil => rfl
              | cons c t =>
                  have hc : c.kind.Spells c.text := hms c List.mem_cons_self
                  rw [List.flatMap_cons, hc.leads_digit]
                  exact fun hkind => h.not_fractional m c t rfl ⟨hnumber, hpoint, hdot, hkind⟩ }

/-! ## Scans that leave nothing -/

section
variable {policy : Policy} {l : Lexeme} {ls : List Lexeme}

/-- The first of some lexemes and those behind it are cut from what they spell each by
itself. -/
theorem cuts_flatMap_cons_iff :
    Cuts policy ((l :: ls).flatMap (·.text)) (l :: ls) [] ↔
      policy.select ruleTable (l.text ++ ls.flatMap (·.text)) = some l ∧
        Cuts policy (ls.flatMap (·.text)) ls [] := by
  rw [List.flatMap_cons, cuts_cons_iff]
  constructor
  · intro h
    obtain ⟨rest, heq, hselect, hcuts⟩ := h
    rw [← List.append_cancel_left heq] at hcuts
    exact ⟨hselect, hcuts⟩
  · intro h
    exact ⟨ls.flatMap (·.text), rfl, h⟩

/-- **Separability**: a policy finds lexemes again behind one another exactly if they
are separable. -/
theorem cuts_iff_separable : Cuts policy (ls.flatMap (·.text)) ls [] ↔ Separable policy ls := by
  induction ls with
  | nil => exact iff_of_true (.stop (policy.select_nil ruleTable)) (separable_nil policy)
  | cons l ls ih =>
      have hselect : policy.select ruleTable (l.text ++ ls.flatMap (·.text)) = some l ↔
          l.kind.Spells l.text ∧ policy.Yields l.kind l.text ∧
            policy.Stops l.kind l.text (ls.flatMap (·.text)) := Policy.select_append_iff
      rw [cuts_flatMap_cons_iff, separable_cons_iff, ih, hselect, ← and_assoc, and_assoc]
      refine and_congr_right fun _ => and_congr_left fun h => ?_
      exact Policy.stops_iff_joins fun m hm => (h.spelled m hm).1

end

/-- A scan under `longest` of what some lexemes spell answers these lexemes exactly if
they are separable. -/
theorem tokenize_longest_flatMap_iff (contextWidth : Nat) (ls : List Lexeme) :
    (tokenize ⟨.longest, false, contextWidth⟩ (String.ofList (ls.flatMap (·.text)))).map
      (·.map Token.toLexeme) = .ok ls ↔ Separable .longest ls := by
  rw [map_toLexeme_tokenize_eq_ok_iff, String.toList_ofList, cuts_iff_separable]

/-! ## Under `firstMatch` -/

theorem Kind.Spells.ne_eof {kind : Kind} {u : List Char} (h : kind.Spells u) : kind ≠ .eof := by
  rintro rfl
  cases h
  contradiction

/-- Only strings begin with a quote, and a string that is not open is closed. -/
theorem Kind.Spells.not_isOpenString_iff {kind : Kind} {u : List Char} (h : kind.Spells u) :
    ¬IsOpenString u ↔ (kind = .string → IsClosedString u) := by
  cases h with
  | fixed h =>
      refine iff_of_true ?_ (by rintro rfl; contradiction)
      cases kind with
      | keyword w => cases h; exact w.isWord_spelling.not_isOpenString
      | _ => cases h <;> exact not_isOpenString_of_ne (by decide) _
  | number h => simp [h.not_isOpenString]
  | blank h => simp [h.not_isOpenString]
  | word h => simp [h.not_isOpenString]
  | closedString h => simp [h, h.not_isOpenString]
  | openString h =>
      have hclosed : ¬IsClosedString u := fun hc => hc.not_isOpenString h
      simp [h, hclosed]

/-- What the first match can yield, kind by kind. -/
theorem Policy.spelled_firstMatch_iff {l : Lexeme} :
    l.kind.Spells l.text ∧ firstMatch.Yields l.kind l.text ↔
      l.kind ∉ [.eof, .bangEqual, .equalEqual, .greaterEqual, .lessEqual] ∧
        l.kind.Spells l.text ∧
        (l.kind = .identifier → ∀ w : Keyword, ¬w.spelling.toList <+: l.text) := by
  have heof : l.kind.Spells l.text → l.kind ≠ .eof := fun h => h.ne_eof
  simp only [Yields, List.mem_cons, not_or]
  tauto

/-- Reserved words and operators stand apart from whatever follows them. -/
theorem Policy.apart_firstMatch_iff (a b : Lexeme) :
    firstMatch.Apart a b ↔
      (a.kind = .identifier → b.kind ≠ .identifier ∧ ¬b.kind.isKeyword ∧ b.kind ≠ .number) ∧
      (a.kind = .number → b.kind ≠ .number) ∧ (a.kind = .whiteSpace → b.kind ≠ .whiteSpace) := by
  constructor
  · intro h
    exact ⟨fun hword => h.word (.inl hword), h.number, h.blank⟩
  · rintro ⟨hword, hnumber, hblank⟩
    exact ⟨fun hw => hword (by simpa using hw), hnumber, hblank, nofun⟩

/-- A scan under `firstMatch` of what some lexemes spell answers these lexemes exactly if
each is spelled as its kind asks, an identifier does not begin with a reserved word, only
the last is an open string, and no lexeme prolongs the one before it. -/
theorem tokenize_firstMatch_flatMap_iff (contextWidth : Nat) (ls : List Lexeme) :
    (tokenize ⟨.firstMatch, false, contextWidth⟩ (String.ofList (ls.flatMap (·.text)))).map
      (·.map Token.toLexeme) = .ok ls ↔
    (∀ l ∈ ls, l.kind ∉ [.eof, .bangEqual, .equalEqual, .greaterEqual, .lessEqual] ∧
      l.kind.Spells l.text ∧
      (l.kind = .identifier → ∀ w : Keyword, ¬w.spelling.toList <+: l.text)) ∧
    (∀ l ∈ ls.dropLast, l.kind = .string → IsClosedString l.text) ∧
    (ls.IsChain fun a b =>
      (a.kind = .identifier → b.kind ≠ .identifier ∧ ¬b.kind.isKeyword ∧ b.kind ≠ .number) ∧
      (a.kind = .number → b.kind ≠ .number) ∧ (a.kind = .whiteSpace → b.kind ≠ .whiteSpace)) ∧
    ∀ a b c, [a, b, c] <:+: ls → ¬LooksFractional a b c := by
  have hclosed : (∀ l ∈ ls, l.kind.Spells l.text) →
      ((∀ l ∈ ls.dropLast, ¬IsOpenString l.text) ↔
        ∀ l ∈ ls.dropLast, l.kind = .string → IsClosedString l.text) := fun h =>
    forall₂_congr fun l hl => (h l (List.dropLast_subset ls hl)).not_isOpenString_iff
  have hchain := List.IsChain.iff (l := ls) Policy.apart_firstMatch_iff
  rw [map_toLexeme_tokenize_eq_ok_iff, String.toList_ofList, cuts_iff_separable]
  constructor
  · rintro ⟨hspelled, hopen, hapart, hfraction⟩
    refine ⟨fun l hl => Policy.spelled_firstMatch_iff.mp (hspelled l hl), ?_, hchain.mp hapart,
      hfraction⟩
    exact (hclosed fun l hl => (hspelled l hl).1).mp hopen
  · rintro ⟨hspelled, hopen, hapart, hfraction⟩
    refine ⟨fun l hl => Policy.spelled_firstMatch_iff.mpr (hspelled l hl), ?_, hchain.mpr hapart,
      hfraction⟩
    exact (hclosed fun l hl => (hspelled l hl).2.1).mpr hopen

end PoxTokens
