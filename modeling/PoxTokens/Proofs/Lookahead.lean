import PoxTokens.Proofs.Separable
import PoxTokens.Proofs.Tiling

/-!
# PoxTokens.Proofs.Lookahead

How far a scan looks ahead.  Lexemes that are found in front of one text are found
in front of another as soon as that text does not prolong the last of them, or the
last two: a number and a dot become one number when a digit follows
(`Policy.finds_iff`).  Nothing further back depends on what follows.

A cut is taken apart and put together at any place between its lexemes
(`cuts_append_iff`), so what the other modules say about parts of a source needs no
induction of its own.  The first use is here: more text behind a source leaves all
tokens but the last one or two as they are (`items_append_isPrefix`).
-/

namespace PoxTokens

/-! ## The next characters -/

section
variable {p : Char → Bool} {s t : List Char}

theorem leads_append (hs : s ≠ []) : leads p (s ++ t) = leads p s := by
  cases s with
  | nil => contradiction
  | cons c s => rfl

/-- What no word can go on with, no number can either. -/
theorem leads_digit_of_leads_alphanum (h : leads Char.isAlphanum s = false) :
    leads Char.isDigit s = false := by
  cases s with
  | nil => rfl
  | cons c s =>
      simp only [leads_cons, Char.isAlphanum, Bool.or_eq_false_iff] at h ⊢
      exact h.2

/-- A point at the very end of a text is the only one whose fraction can follow later. -/
theorem Pattern.leadsFraction_append (hs : s ≠ []) :
    leadsFraction (s ++ t) = false ↔
      leadsFraction s = false ∧ (s = ['.'] → leads Char.isDigit t = false) := by
  cases s with
  | nil => contradiction
  | cons c s =>
      rw [List.cons_append, leadsFraction_cons, leadsFraction_cons]
      cases s with
      | nil => by_cases hc : c = '.' <;> simp [hc]
      | cons d s => simp

end

namespace Policy

section
variable {policy : Policy} {kind : Kind} {u s t : List Char}

/-- Whether a lexeme stops is seen from the next character, but for a number before a
point with which the text so far ends. -/
theorem stops_append_iff (hs : s ≠ []) :
    policy.Stops kind u (s ++ t) ↔
      policy.Stops kind u s ∧
        (kind = .number → '.' ∉ u → s = ['.'] → leads Char.isDigit t = false) := by
  have hlead : ∀ p, leads p (s ++ t) = leads p s := fun p => leads_append hs
  constructor
  · intro h
    have hfraction := fun hk hu => (Pattern.leadsFraction_append hs).mp (h.fraction hk hu)
    exact
      ⟨{ string := fun hopen => (List.append_eq_nil_iff.mp (h.string hopen)).1
         number := fun hk => hlead _ ▸ h.number hk
         fraction := fun hk hu => (hfraction hk hu).1
         blank := fun hk => hlead _ ▸ h.blank hk
         word := fun hk => hlead _ ▸ h.word hk
         operator := fun hp hk => hlead _ ▸ h.operator hp hk },
       fun hk hu => (hfraction hk hu).2⟩
  · rintro ⟨h, hpoint⟩
    exact
      { string := fun hopen => absurd (h.string hopen) hs
        number := fun hk => by rw [hlead]; exact h.number hk
        fraction := fun hk hu =>
          (Pattern.leadsFraction_append hs).mpr ⟨h.fraction hk hu, hpoint hk hu⟩
        blank := fun hk => by rw [hlead]; exact h.blank hk
        word := fun hk => by rw [hlead]; exact h.word hk
        operator := fun hp hk => by rw [hlead]; exact h.operator hp hk }

end

/-! ## Lexemes in front of a text -/

/-- Lexemes are selected one behind the other in front of a text. -/
def Finds (policy : Policy) : List Lexeme → List Char → Prop
  | [], _ => True
  | l :: ls, rest =>
    policy.select ruleTable (l.text ++ (ls.flatMap (·.text) ++ rest)) = some l ∧
      policy.Finds ls rest

/-- A number without a fraction and a dot, which a digit makes one number. -/
def LooksPointed (a b : Lexeme) : Prop := a.kind = .number ∧ '.' ∉ a.text ∧ b.kind = .dot

/-- What follows some lexemes does not prolong them. -/
structure Closes (policy : Policy) (ls : List Lexeme) (rest : List Char) : Prop where
  last : ∀ l ∈ ls.getLast?, policy.Stops l.kind l.text rest
  point : ∀ a b, [a, b] <:+ ls → LooksPointed a b → leads Char.isDigit rest = false

section
variable {policy : Policy} {l m : Lexeme} {ls ms : List Lexeme} {rest : List Char}

theorem closes_nil : policy.Closes [] rest where
  last := by simp
  point a b h := by simp at h

/-- A single lexeme closes where it stops. -/
theorem closes_singleton_iff : policy.Closes [l] rest ↔ policy.Stops l.kind l.text rest := by
  constructor
  · intro h
    exact h.last l rfl
  · intro h
    refine ⟨by simpa using h, fun a b hsuffix => ?_⟩
    have := hsuffix.length_le
    simp at this

/-- Only the last two lexemes matter for what may stand behind them. -/
theorem closes_cons_cons_iff :
    policy.Closes (l :: m :: ms) rest ↔
      (ms = [] → LooksPointed l m → leads Char.isDigit rest = false) ∧
        policy.Closes (m :: ms) rest := by
  constructor
  · intro h
    refine ⟨fun hms hlm => h.point l m (by simp [hms]) hlm, by simpa using h.last, ?_⟩
    exact fun a b hsuffix => h.point a b (List.suffix_cons_iff.mpr (.inr hsuffix))
  · rintro ⟨hpoint, h⟩
    refine ⟨by simpa using h.last, fun a b hsuffix => ?_⟩
    rcases List.suffix_cons_iff.mp hsuffix with heq | hsuffix
    · simp only [List.cons.injEq] at heq
      obtain ⟨rfl, rfl, hms⟩ := heq
      exact hpoint hms.symm
    · exact h.point a b hsuffix

/-- Each lexeme is selected in front of all that follows. -/
theorem finds_cons_iff :
    policy.Finds (l :: ls) rest ↔
      policy.select ruleTable (l.text ++ (ls.flatMap (·.text) ++ rest)) = some l ∧
        policy.Finds ls rest :=
  Iff.rfl

/-- A lexeme is selected from its own text exactly if the text is one of its kind. -/
theorem select_text_iff :
    policy.select ruleTable l.text = some l ↔
      l.kind.Spells l.text ∧ policy.Yields l.kind l.text := by
  have h : policy.select ruleTable (l.text ++ []) = some l ↔
      l.kind.Spells l.text ∧ policy.Yields l.kind l.text ∧ policy.Stops l.kind l.text [] :=
    select_append_iff
  simpa [stops_nil] using h

/-- What is selected in front of more text is selected alone, and stops there. -/
theorem select_text_append_iff :
    policy.select ruleTable (l.text ++ rest) = some l ↔
      policy.select ruleTable l.text = some l ∧ policy.Stops l.kind l.text rest := by
  rw [select_text_iff, and_assoc]
  exact select_append_iff

/-- What is found is spelled as its kind asks. -/
theorem Finds.spelled (h : policy.Finds ls rest) : ∀ l ∈ ls, l.kind.Spells l.text := by
  induction ls with
  | nil => simp
  | cons l ls ih =>
      obtain ⟨hselect, hfinds⟩ := h
      exact List.forall_mem_cons.mpr ⟨(select_append_iff.mp hselect).1, ih hfinds⟩

/-- Lexemes spell a single point exactly if they are a single dot. -/
theorem flatMap_text_eq_point_iff (h : ∀ k ∈ m :: ms, k.kind.Spells k.text) :
    (m :: ms).flatMap (·.text) = ['.'] ↔ ms = [] ∧ m.kind = .dot := by
  obtain ⟨hm, hms⟩ := List.forall_mem_cons.mp h
  have hdot : m.kind = .dot ↔ m.text = ['.'] := by
    obtain ⟨c, v, heq, -, -, -, -, hc⟩ := hm.exists_cons
    constructor
    · intro hkind
      rw [hkind] at hm
      exact (Kind.spells_iff_of_spelling? rfl).mp hm
    · intro htext
      rw [htext, List.cons.injEq] at heq
      rw [← heq.1] at hc
      simpa using hc.symm
  rw [List.flatMap_cons, hdot]
  constructor
  · intro heq
    cases ms with
    | nil => simpa using heq
    | cons k ks =>
        have hk : k.text ≠ [] := (hms k List.mem_cons_self).ne_nil
        have hlength := congrArg List.length heq
        have := List.length_pos_iff.mpr hm.ne_nil
        have := List.length_pos_iff.mpr hk
        simp at hlength
        omega
  · rintro ⟨rfl, htext⟩
    simp [htext]

/-- **Lookahead**: lexemes are found in front of a text exactly if they are found by
themselves and the text does not prolong them. -/
theorem finds_iff : policy.Finds ls rest ↔ policy.Finds ls [] ∧ policy.Closes ls rest := by
  induction ls with
  | nil => simp [Finds, closes_nil]
  | cons l ls ih =>
      cases ls with
      | nil => simp [Finds, closes_singleton_iff, select_text_append_iff]
      | cons m ms =>
          rw [finds_cons_iff (l := l), finds_cons_iff (l := l), ih, closes_cons_cons_iff,
            List.append_nil]
          have hpoint : policy.Finds (m :: ms) [] →
              (policy.select ruleTable (l.text ++ ((m :: ms).flatMap (·.text) ++ rest)) = some l ↔
                policy.select ruleTable (l.text ++ (m :: ms).flatMap (·.text)) = some l ∧
                  (ms = [] → LooksPointed l m → leads Char.isDigit rest = false)) := by
            intro hfinds
            have hne : (m :: ms).flatMap (·.text) ≠ [] := by
              simp [(hfinds.spelled m List.mem_cons_self).ne_nil]
            rw [select_text_append_iff, select_text_append_iff, stops_append_iff hne,
              flatMap_text_eq_point_iff hfinds.spelled, LooksPointed]
            tauto
          tauto

end

end Policy

/-! ## Cuts -/

section
variable {policy : Policy} {s t rest left : List Char} {xs ys : List Lexeme}

/-- A cut is taken apart between two of its lexemes: the first ones are found in front of
the text that the others are cut from. -/
theorem cuts_append_iff :
    Cuts policy s (xs ++ ys) left ↔
      ∃ rest, s = xs.flatMap (·.text) ++ rest ∧ policy.Finds xs rest ∧
        Cuts policy rest ys left := by
  induction xs generalizing s with
  | nil => simp [Policy.Finds]
  | cons x xs ih =>
      rw [List.cons_append, cuts_cons_iff]
      constructor
      · rintro ⟨_, rfl, hselect, hcuts⟩
        obtain ⟨rest, rfl, hfinds, hcuts⟩ := ih.mp hcuts
        exact ⟨rest, by simp, ⟨hselect, hfinds⟩, hcuts⟩
      · rintro ⟨rest, rfl, ⟨hselect, hfinds⟩, hcuts⟩
        have hassoc : (x :: xs).flatMap (·.text) ++ rest =
            x.text ++ (xs.flatMap (·.text) ++ rest) := by simp
        exact ⟨_, hassoc, hassoc ▸ hselect, ih.mpr ⟨rest, rfl, hfinds, hcuts⟩⟩

/-- A text whose lexemes are found in front of the rest is cut there, and then the rest is. -/
theorem cuts_flatMap_append_iff :
    Cuts policy (xs.flatMap (·.text) ++ rest) (xs ++ ys) left ↔
      policy.Finds xs rest ∧ Cuts policy rest ys left := by
  rw [cuts_append_iff]
  constructor
  · rintro ⟨rest', heq, h⟩
    rw [List.append_cancel_left heq]
    exact h
  · intro h
    exact ⟨rest, rfl, h⟩

/-- Lexemes that are found by themselves are the cut of what they spell. -/
theorem cuts_iff_finds : Cuts policy (xs.flatMap (·.text)) xs [] ↔ policy.Finds xs [] := by
  have h : Cuts policy (xs.flatMap (·.text) ++ []) (xs ++ []) [] ↔
      policy.Finds xs [] ∧ Cuts policy [] [] [] := cuts_flatMap_append_iff
  have hnil : Cuts policy [] [] [] := .stop (policy.select_nil ruleTable)
  simpa [hnil] using h

/-- A complete cut and a cut of what follows are one cut exactly if what follows does not
prolong the lexemes of the first. -/
theorem Cuts.join_iff {u : List Char} (h : Cuts policy u xs []) :
    Cuts policy (u ++ rest) (xs ++ ys) left ↔
      policy.Closes xs rest ∧ Cuts policy rest ys left := by
  have htext := h.flatMap_text
  have hfinds : policy.Finds xs [] := cuts_iff_finds.mp (htext.symm ▸ h)
  rw [← htext, cuts_flatMap_append_iff, Policy.finds_iff, and_iff_right hfinds]

/-- A selected lexeme is the cut of its own text. -/
theorem cuts_text_of_select {l : Lexeme} (h : policy.select ruleTable (l.text ++ rest) = some l) :
    Cuts policy l.text [l] [] := by
  have hfinds : policy.Finds [l] [] := by
    simpa [Policy.Finds] using (Policy.select_text_append_iff.mp h).1
  simpa using cuts_iff_finds.mpr hfinds

/-- Lexemes that more text behind a nonempty text does not prolong either. -/
theorem Policy.Closes.append (h : policy.Closes xs s) (hs : s ≠ [])
    (hpoint : ∀ l ∈ xs.getLast?, l.kind = .number → '.' ∉ l.text → s ≠ ['.']) :
    policy.Closes xs (s ++ t) where
  last l hl := by
    refine (Policy.stops_append_iff hs).mpr ⟨h.last l hl, fun hkind hdot heq => ?_⟩
    exact absurd heq (hpoint l hl hkind hdot)
  point a b hsuffix hab := by
    rw [leads_append hs]
    exact h.point a b hsuffix hab

/-- More text behind a cut leaves the lexemes before its end as they are, but for a number
before a point at the end. -/
theorem Cuts.append (h : Cuts policy s (xs ++ ys) []) (hys : ys ≠ [])
    (hpoint : ∀ l ∈ xs.getLast?, l.kind = .number → '.' ∉ l.text → ys.flatMap (·.text) ≠ ['.'])
    (t : List Char) : ∃ zs left, Cuts policy (s ++ t) (xs ++ zs) left := by
  obtain ⟨rest, rfl, hfinds, hcuts⟩ := cuts_append_iff.mp h
  have hrest : ys.flatMap (·.text) = rest := hcuts.flatMap_text
  obtain ⟨y, ys, rfl⟩ := List.exists_cons_of_ne_nil hys
  have hy : y.text ≠ [] := hcuts.text_ne_nil y List.mem_cons_self
  have hne : rest ≠ [] := by
    rw [← hrest]
    simp [hy]
  obtain ⟨hself, hcloses⟩ := Policy.finds_iff.mp hfinds
  rw [hrest] at hpoint
  rw [List.append_assoc]
  exact ⟨_, _, cuts_flatMap_append_iff.mpr
    ⟨Policy.finds_iff.mpr ⟨hself, hcloses.append hne hpoint⟩, cuts_lexemes policy (rest ++ t)⟩⟩

theorem Cuts.spelled (h : Cuts policy s xs left) : ∀ l ∈ xs, l.kind.Spells l.text := by
  rw [← List.append_nil xs] at h
  obtain ⟨rest, -, hfinds, -⟩ := cuts_append_iff.mp h
  exact hfinds.spelled

end

/-! ## More text behind a source -/

/-- Do tokens end with a number without a fraction and a dot? -/
def EndsPointed (tokens : List Token) : Prop :=
  ∃ a b, [a, b] <:+ tokens ∧ Policy.LooksPointed a.toLexeme b.toLexeme

theorem endsPointed_place {position : Nat} {ls : List Lexeme} {k l : Lexeme} (h : [k, l] <:+ ls)
    (hkl : Policy.LooksPointed k l) : EndsPointed (place position ls) := by
  obtain ⟨ws, rfl⟩ := h
  rw [place_append]
  exact ⟨k.at _, l.at _, List.suffix_append _ (place _ [k, l]), by simpa using hkl⟩

section
variable {options : ScanOptions} {a : String} {xs ys : List Lexeme}

/-- Lexemes in front of the last survive any continuation, unless a point behind them becomes a
fraction. -/
theorem items_append_of_cuts (h : Cuts options.policy a.toList (xs ++ ys) []) (hys : ys ≠ [])
    (hpoint : ∀ l ∈ xs.getLast?, l.kind = .number → '.' ∉ l.text → ys.flatMap (·.text) ≠ ['.'])
    (b : String) : (place 0 xs).map .token <+: items options (a ++ b) := by
  obtain ⟨zs, left, hcuts⟩ := h.append hys hpoint b.toList
  rw [← String.toList_append] at hcuts
  rw [items_of_cuts hcuts, place_append, List.map_append, List.append_assoc]
  exact List.prefix_append _ _

end

/-- **Stability**: more text behind a complete source leaves all its tokens but the last as
they are, or all but the last two if these are a number without a fraction and a dot. -/
theorem items_append_isPrefix (options : ScanOptions) {a : String} {tokens : List Token}
    (h : tokenize { options with emitEof := false } a = .ok tokens) (b : String) :
    tokens.dropLast.dropLast.map .token <+: items options (a ++ b) ∧
      (¬EndsPointed tokens → tokens.dropLast.map .token <+: items options (a ++ b)) := by
  obtain ⟨ls, hcuts, rfl⟩ := tokenize_unmarked_eq_ok_iff.mp h
  rcases ls.eq_nil_or_concat' with rfl | ⟨xs, l, rfl⟩
  · simp [place]
  rcases xs.eq_nil_or_concat' with rfl | ⟨ws, k, rfl⟩
  · simp [place]
  have hk : k.text ≠ [] := hcuts.text_ne_nil k (by simp)
  have hl : l.text ≠ [] := hcuts.text_ne_nil l (by simp)
  constructor
  · rw [← place_dropLast, ← place_dropLast, List.dropLast_concat, List.dropLast_concat]
    rw [List.append_assoc] at hcuts
    refine items_append_of_cuts hcuts (by simp) (fun _ _ _ _ heq => ?_) b
    -- two lexemes spell more than a point
    have hlength := congrArg List.length heq
    have := List.length_pos_iff.mpr hk
    have := List.length_pos_iff.mpr hl
    simp at hlength
    omega
  · intro hends
    rw [← place_dropLast, List.dropLast_concat]
    refine items_append_of_cuts hcuts (by simp) (fun m hm hkind hdot heq => hends ?_) b
    obtain rfl : k = m := by simpa using hm
    have hspelled : l.kind.Spells l.text := hcuts.spelled l (by simp)
    have hlast : l.kind = .dot := by
      have hsingle : ∀ m ∈ [l], m.kind.Spells m.text := by simpa using hspelled
      exact ((Policy.flatMap_text_eq_point_iff hsingle).mp heq).2
    exact endsPointed_place (by simp) ⟨hkind, hdot, hlast⟩

/-- A number at the end keeps its place if a dot follows it, and not if a dot stands behind
it already and a digit follows. -/
theorem items_append_isPrefix_pointed :
    let tokens : List Token := [⟨0, "x", .identifier⟩, ⟨1, "=", .equal⟩, ⟨2, "1", .number⟩,
      ⟨3, ".", .dot⟩]
    tokenize ⟨.longest, false, 40⟩ "x=1." = .ok tokens ∧
      tokens.dropLast.dropLast.map .token <+: items ⟨.longest, true, 40⟩ ("x=1." ++ "5#") ∧
      (¬EndsPointed tokens →
        tokens.dropLast.map .token <+: items ⟨.longest, true, 40⟩ ("x=1." ++ "5#")) := by
  intro tokens
  have hitems : items ⟨.longest, false, 40⟩ "x=1." = tokens.map .token := by decide +kernel
  have h : tokenize ⟨.longest, false, 40⟩ "x=1." = .ok tokens := by rw [tokenize, hitems]; rfl
  exact ⟨h, items_append_isPrefix ⟨.longest, true, 40⟩ h "5#"⟩

end PoxTokens
