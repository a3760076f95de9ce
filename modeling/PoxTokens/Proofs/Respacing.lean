import PoxTokens.Proofs.Composition
import PoxTokens.Proofs.Locality

/-!
# PoxTokens.Proofs.Respacing

The spaces of a source can be chosen anew.  A scan of the significant tokens of a source,
written with any numbers of spaces around them, finds the same significant tokens, as long as
tokens that spaces kept apart are still apart and no space goes into an open string at the
end (`tokenize_respaced`).

The induction is on the cut of the source.  A space prolongs nothing but a blank, so only
tokens that now touch are in question; they touched in the source as well
(`Respaces.exists_of_position_le`), and begin with the same characters.
-/

namespace PoxTokens

/-! ## Spaces around tokens -/

/-- The number of bytes between two tokens.  Between neighbours among the significant tokens
all of them are spaces. -/
def Token.gap (t u : Token) : Nat := u.position - t.stop

/-- Tokens, each with a number of spaces behind it, as a text. -/
def spacedText (spaced : List (Token × Nat)) : List Char :=
  spaced.flatMap fun (t, n) => t.lexeme.toList ++ List.replicate n ' '

/-- The same with some spaces before the first token. -/
def spacedSource (before : Nat) (spaced : List (Token × Nat)) : String :=
  String.ofList (List.replicate before ' ' ++ spacedText spaced)

/-- How many spaces may be written behind the significant tokens of a scan. -/
structure Respaces (tokens : List Token) (spaced : List (Token × Nat)) : Prop where
  tokens_eq : spaced.map Prod.fst = significant tokens
  apart : spaced.IsChain fun p q => 0 < p.1.gap q.1 → 0 < p.2
  closed : ∀ p ∈ spaced.getLast?, IsOpenString p.1.lexeme.toList → p.2 = 0

/-- The lexeme of some spaces, if there are any. -/
def blanks : Nat → List Lexeme
  | 0 => []
  | n + 1 => [⟨.whiteSpace, List.replicate (n + 1) ' '⟩]

/-- The lexemes of tokens with spaces behind them. -/
def spacedLexemes (spaced : List (Token × Nat)) : List Lexeme :=
  spaced.flatMap fun (t, n) => t.toLexeme :: blanks n

theorem spacedText_cons (position : Nat) (l : Lexeme) (n : Nat) (spaced : List (Token × Nat)) :
    spacedText ((l.at position, n) :: spaced) =
      l.text ++ (List.replicate n ' ' ++ spacedText spaced) := by
  simp [spacedText]

theorem spacedLexemes_cons (t : Token) (n : Nat) (spaced : List (Token × Nat)) :
    spacedLexemes ((t, n) :: spaced) = t.toLexeme :: (blanks n ++ spacedLexemes spaced) := rfl

/-! ## Significant tokens -/

theorem Kind.isTrivia_iff {kind : Kind} : kind.isTrivia ↔ kind = .whiteSpace := by
  cases kind <;> simp [isTrivia]

/-- The significant tokens are all but the blanks. -/
theorem mem_significant_iff {t : Token} {tokens : List Token} :
    t ∈ significant tokens ↔ t ∈ tokens ∧ t.kind ≠ .whiteSpace := by
  rw [significant, List.mem_filter, Bool.not_eq_true', ← Bool.not_eq_true, Kind.isTrivia_iff]

theorem significant_place_cons (position : Nat) (l : Lexeme) (ls : List Lexeme) :
    significant (place position (l :: ls)) =
      if l.kind = .whiteSpace then significant (place (position + byteLength l.text) ls)
      else l.at position :: significant (place (position + byteLength l.text) ls) := by
  by_cases h : l.kind = .whiteSpace
  · simp [significant, place, Lexeme.at, h, Kind.isTrivia]
  · have hkind : l.kind.isTrivia = false := Bool.not_eq_true _ ▸ mt Kind.isTrivia_iff.mp h
    simp [significant, place, Lexeme.at, h, hkind]

/-- Leaving out the blanks can be done before the lexemes are placed. -/
theorem map_toLexeme_significant_place (position : Nat) (ls : List Lexeme) :
    (significant (place position ls)).map Token.toLexeme =
      ls.filter fun l => !l.kind.isTrivia := by
  rw [← map_toLexeme_place position ls, List.filter_map, map_toLexeme_place]
  rfl

theorem filter_blanks (n : Nat) : (blanks n).filter (fun l => !l.kind.isTrivia) = [] := by
  cases n <;> rfl

/-- The gaps that were put in are left out again. -/
theorem filter_spacedLexemes {spaced : List (Token × Nat)}
    (h : ∀ p ∈ spaced, p.1.kind ≠ .whiteSpace) :
    (spacedLexemes spaced).filter (fun l => !l.kind.isTrivia) =
      (spaced.map Prod.fst).map Token.toLexeme := by
  induction spaced with
  | nil => rfl
  | cons p spaced ih =>
      obtain ⟨t, n⟩ := p
      obtain ⟨ht, hspaced⟩ := List.forall_mem_cons.mp h
      have hkind : ¬t.toLexeme.kind.isTrivia := mt Kind.isTrivia_iff.mp ht
      rw [spacedLexemes_cons, List.filter_cons, if_pos (by simpa using hkind),
        List.filter_append, filter_blanks, ih hspaced]
      rfl

section
variable {policy : Policy} {position : Nat} {s : List Char} {l : Lexeme} {ls : List Lexeme}
  {spaced : List (Token × Nat)}

/-- Of some lexemes the first either is blank or makes the first token, with its number of
spaces: none only if the next token begins where it stops. -/
theorem Respaces.cons_cases (h : Respaces (place position (l :: ls)) spaced) :
    (l.kind = .whiteSpace ∧ Respaces (place (position + byteLength l.text) ls) spaced) ∨
      ∃ n others, spaced = (l.at position, n) :: others ∧ l.kind ≠ .whiteSpace ∧
        Respaces (place (position + byteLength l.text) ls) others ∧
        (n = 0 → ∀ p ∈ others.head?, p.1.position ≤ position + byteLength l.text) ∧
        (others = [] → IsOpenString l.text → n = 0) := by
  obtain ⟨htokens, hapart, hclosed⟩ := h
  rw [significant_place_cons] at htokens
  by_cases hblank : l.kind = .whiteSpace
  · rw [if_pos hblank] at htokens
    exact .inl ⟨hblank, htokens, hapart, hclosed⟩
  · rw [if_neg hblank] at htokens
    obtain ⟨⟨t, n⟩, others, rfl, rfl, hothers⟩ := List.map_eq_cons_iff.mp htokens
    obtain ⟨hhead, hchain⟩ := List.isChain_cons.mp hapart
    refine .inr ⟨n, others, rfl, hblank, ⟨hothers, hchain, fun p hp => ?_⟩, fun hn p hp => ?_,
      fun hnil hopen => ?_⟩
    · exact hclosed p (by rw [List.getLast?_cons, hp]; rfl)
    · have hgap := hhead p hp
      simp only [Token.gap, Lexeme.stop_at] at hgap
      omega
    · subst hnil
      exact hclosed _ rfl (by simpa using hopen)

/-- If the first token stands where its lexemes begin, it is the first of them. -/
theorem Respaces.exists_of_position_le {p : Token × Nat}
    (h : Respaces (place position ls) (p :: spaced)) (hne : ∀ l ∈ ls, l.text ≠ [])
    (hp : p.1.position ≤ position) :
    ∃ l others, ls = l :: others ∧ p.1 = l.at position ∧
      Respaces (place (position + byteLength l.text) others) spaced ∧
      (p.2 = 0 → ∀ q ∈ spaced.head?, q.1.position ≤ position + byteLength l.text) := by
  cases ls with
  | nil => exact absurd h.tokens_eq (List.cons_ne_nil _ _)
  | cons l ls =>
      obtain ⟨hl, hls⟩ := List.forall_mem_cons.mp hne
      rcases h.cons_cases with ⟨-, h⟩ | ⟨n, others, heq, -, h, hnext, -⟩
      · have hmem : p.1 ∈ significant (place (position + byteLength l.text) ls) := by
          rw [← h.tokens_eq]
          exact List.mem_cons_self
        have hbounds := bounds_of_mem_place hls (mem_significant_iff.mp hmem).1
        have hzero : byteLength l.text ≠ 0 := mt byteLength_eq_zero_iff.mp hl
        omega
      · obtain ⟨rfl, rfl⟩ := List.cons.inj heq
        exact ⟨l, ls, rfl, rfl, h, hnext⟩

/-- Tokens that stand where their lexemes begin have the first character of the lexemes. -/
theorem Respaces.leads_eq_false {p : Char → Bool} (h : Respaces (place position ls) spaced)
    (hcuts : Cuts policy s ls []) (hhead : ∀ q ∈ spaced.head?, q.1.position ≤ position)
    (hs : leads p s = false) : leads p (spacedText spaced) = false := by
  cases spaced with
  | nil => rfl
  | cons q spaced =>
      obtain ⟨t, n⟩ := q
      obtain ⟨l, others, rfl, rfl, -⟩ :=
        h.exists_of_position_le hcuts.text_ne_nil (hhead _ rfl)
      obtain ⟨rest, rfl, -⟩ := cuts_cons_iff.mp hcuts
      have hl : l.text ≠ [] := hcuts.text_ne_nil l List.mem_cons_self
      rw [leads_append hl] at hs
      rw [spacedText_cons, leads_append hl, hs]

/-- What does not prolong a lexeme in the source does not prolong it in front of the tokens
either. -/
theorem Respaces.stops {kind : Kind} {u : List Char} (h : Respaces (place position ls) spaced)
    (hcuts : Cuts policy s ls []) (hhead : ∀ q ∈ spaced.head?, q.1.position ≤ position)
    (hs : policy.Stops kind u s) : policy.Stops kind u (spacedText spaced) := by
  cases spaced with
  | nil => exact Policy.stops_nil
  | cons q spaced =>
      obtain ⟨t, n⟩ := q
      obtain ⟨l, others, rfl, rfl, hothers, hnext⟩ :=
        h.exists_of_position_le hcuts.text_ne_nil (hhead _ rfl)
      obtain ⟨rest, rfl, -, hrest⟩ := cuts_cons_iff.mp hcuts
      have hl : l.text ≠ [] := hcuts.text_ne_nil l List.mem_cons_self
      obtain ⟨hself, hpoint⟩ := (Policy.stops_append_iff hl).mp hs
      rw [spacedText_cons, Policy.stops_append_iff hl]
      refine ⟨hself, fun hkind hu hdot => ?_⟩
      -- behind a point that a number stands before, a digit comes first only if it did before
      cases n with
      | zero => exact hothers.leads_eq_false hrest (hnext rfl) (hpoint hkind hu hdot)
      | succ n => rfl

/-- A text that is spaced anew begins with its first significant token and not with a space. -/
theorem Respaces.leads_space (h : Respaces (place position ls) spaced)
    (hspelled : ∀ l ∈ ls, l.kind.Spells l.text) : leads (· == ' ') (spacedText spaced) = false := by
  cases spaced with
  | nil => rfl
  | cons q spaced =>
      obtain ⟨t, n⟩ := q
      have hmem : t ∈ significant (place position ls) := by
        rw [← h.tokens_eq]
        exact List.mem_cons_self
      obtain ⟨hplace, hkind⟩ := mem_significant_iff.mp hmem
      obtain ⟨xs, l, ys, rfl, rfl⟩ := exists_of_mem_place hplace
      have hl : l.kind.Spells l.text := hspelled l (by simp)
      rw [spacedText_cons]
      exact (hl.leads_space _).mpr hkind

/-! ## Cuts -/

/-- Spaces before a text that does not begin with one are a lexeme of their own. -/
theorem Cuts.replicate_append {t left : List Char} (h : Cuts policy t ls left)
    (ht : leads (· == ' ') t = false) (n : Nat) :
    Cuts policy (List.replicate n ' ' ++ t) (blanks n ++ ls) left := by
  cases n with
  | zero => exact h
  | succ n =>
      have hblank : IsBlank (List.replicate (n + 1) ' ') :=
        ⟨by simp, fun c hc => List.eq_of_mem_replicate hc⟩
      exact cuts_cons_iff.mpr ⟨t, rfl, select_whiteSpace_iff.mpr ⟨hblank, ht⟩, h⟩

/-- The significant lexemes of a cut are cut again from a text that writes them with other
spaces. -/
theorem Cuts.respaced (h : Cuts policy s ls []) (hspaced : Respaces (place position ls) spaced) :
    Cuts policy (spacedText spaced) (spacedLexemes spaced) [] := by
  induction ls generalizing position s spaced with
  | nil =>
      obtain rfl : spaced = [] := List.map_eq_nil_iff.mp hspaced.tokens_eq
      exact .stop (policy.select_nil ruleTable)
  | cons l ls ih =>
      obtain ⟨rest, rfl, hselect, hrest⟩ := cuts_cons_iff.mp h
      rcases hspaced.cons_cases with ⟨-, hls⟩ | ⟨n, others, rfl, hkind, hls, hnext, hend⟩
      · exact ih hrest hls
      · obtain ⟨hspells, hyields, hstops⟩ := Policy.select_append_iff.mp hselect
        have hothers : policy.Stops l.kind l.text
            (List.replicate n ' ' ++ spacedText others) := by
          cases n with
          | zero => exact hls.stops hrest (hnext rfl) hstops
          | succ n =>
              refine Policy.stops_cons (fun hopen => ?_) rfl (by decide) (by decide)
                (fun hblank => absurd hblank hkind) _
              -- an open string ends the source, so it is the last token, with no space behind it
              obtain rfl : rest = [] := hstops.string hopen
              obtain ⟨rfl, -⟩ := hrest.unique (.stop (policy.select_nil ruleTable))
              exact Nat.succ_ne_zero n (hend (List.map_eq_nil_iff.mp hls.tokens_eq) hopen)
        rw [spacedText_cons, spacedLexemes_cons, Lexeme.toLexeme_at, cuts_cons_iff]
        refine ⟨_, rfl, Policy.select_append_iff.mpr ⟨hspells, hyields, hothers⟩, ?_⟩
        exact (ih hrest hls).replicate_append (hls.leads_space hrest.spelled) n

/-! ## Gaps -/

theorem byteLength_replicate_space (n : Nat) : byteLength (List.replicate n ' ') = n := by
  induction n with
  | zero => rfl
  | succ n ih =>
      have hsize : Char.utf8Size ' ' = 1 := rfl
      rw [List.replicate_succ, byteLength_cons, ih, hsize, Nat.add_comm]

/-- Only spaces stand before the first significant token. -/
theorem Cuts.exists_replicate_append (h : Cuts policy s ls []) {t : Token}
    (ht : t ∈ (significant (place position ls)).head?) :
    ∃ n rest, s = List.replicate n ' ' ++ rest ∧ t.position = position + n := by
  induction ls generalizing position s with
  | nil => contradiction
  | cons l ls ih =>
      obtain ⟨rest, rfl, -, hrest⟩ := cuts_cons_iff.mp h
      rw [significant_place_cons] at ht
      by_cases hkind : l.kind = .whiteSpace
      · rw [if_pos hkind] at ht
        obtain ⟨n, others, rfl, hposition⟩ := ih hrest ht
        have hblank : IsBlank l.text :=
          Kind.spells_whiteSpace_iff.mp (hkind ▸ h.spelled l List.mem_cons_self)
        obtain ⟨k, hk⟩ : ∃ k, l.text = List.replicate k ' ' :=
          ⟨_, List.eq_replicate_of_mem hblank.2⟩
        refine ⟨k + n, others, ?_, ?_⟩
        · rw [hk, List.replicate_add, List.append_assoc]
        · rw [hposition, hk, byteLength_replicate_space, Nat.add_assoc]
      · rw [if_neg hkind] at ht
        obtain rfl : l.at position = t := by simpa using ht
        exact ⟨0, _, rfl, rfl⟩

/-- Between neighbours among the significant tokens there are only spaces. -/
theorem Cuts.isChain_significant {source : String} {before : List Char} (h : Cuts policy s ls [])
    (hsource : source.toList = before ++ s) :
    (significant (place (byteLength before) ls)).IsChain fun t u =>
      source.toUTF8.extract t.stop u.position =
        (String.ofList (List.replicate (t.gap u) ' ')).toUTF8 := by
  induction ls generalizing s before with
  | nil => exact .nil
  | cons l ls ih =>
      obtain ⟨rest, rfl, -, hrest⟩ := cuts_cons_iff.mp h
      have hbehind : source.toList = before ++ l.text ++ rest := by
        rw [hsource, List.append_assoc]
      have hchain := ih hrest hbehind
      rw [byteLength_append] at hchain
      rw [significant_place_cons]
      by_cases hkind : l.kind = .whiteSpace
      · rw [if_pos hkind]
        exact hchain
      · rw [if_neg hkind, List.isChain_cons]
        refine ⟨fun u hu => ?_, hchain⟩
        obtain ⟨n, others, rfl, hposition⟩ := hrest.exists_replicate_append hu
        have hgap : (l.at (byteLength before)).gap u = n := by
          rw [Token.gap, Lexeme.stop_at, hposition, Nat.add_sub_cancel_left]
        have hpiece := toUTF8_ofList_eq_extract hbehind
        rw [byteLength_append, byteLength_replicate_space] at hpiece
        rw [hgap, Lexeme.stop_at, hposition, hpiece]

end

/-- **Re-spacing**: what stands between neighbours among the significant tokens of a source are
spaces, and the same tokens are found again if they are written with other numbers of spaces,
none only where there was none before, and none behind an open string. -/
theorem tokenize_respaced {options : ScanOptions} {source : String} {result : List Token}
    (h : tokenize options source = .ok result) :
    ∃ tokens, result = tokens ++ endMarker options.emitEof source ∧
      ((significant tokens).IsChain fun t u => source.toUTF8.extract t.stop u.position =
        (String.ofList (List.replicate (t.gap u) ' ')).toUTF8) ∧
      ∀ (before : Nat) (spaced : List (Token × Nat)), Respaces tokens spaced →
        ∃ found, tokenize options (spacedSource before spaced) =
            .ok (found ++ endMarker options.emitEof (spacedSource before spaced)) ∧
          (significant found).map Token.toLexeme = (significant tokens).map Token.toLexeme := by
  obtain ⟨ls, hcuts, rfl⟩ := tokenize_eq_ok_iff.mp h
  have hsource : source.toList = [] ++ source.toList := rfl
  refine ⟨place 0 ls, rfl, hcuts.isChain_significant hsource, fun before spaced hspaced => ?_⟩
  have hkinds : ∀ p ∈ spaced, p.1.kind ≠ .whiteSpace := by
    intro p hp
    have hmem : p.1 ∈ significant (place 0 ls) := by
      rw [← hspaced.tokens_eq]
      exact List.mem_map_of_mem hp
    exact (mem_significant_iff.mp hmem).2
  have hfound : Cuts options.policy (spacedSource before spaced).toList
      (blanks before ++ spacedLexemes spaced) [] := by
    rw [spacedSource, String.toList_ofList]
    exact (hcuts.respaced hspaced).replicate_append (hspaced.leads_space hcuts.spelled) before
  refine ⟨place 0 (blanks before ++ spacedLexemes spaced), tokenize_of_cuts_nil hfound, ?_⟩
  rw [map_toLexeme_significant_place, List.filter_append, filter_blanks,
    filter_spacedLexemes hkinds, List.nil_append, hspaced.tokens_eq]

/-- A number before a point that a digit follows: the space between them has to stay.  The
source ends with an open string. -/
theorem tokenize_respaced_firstMatch :
    let options : ScanOptions := ⟨.firstMatch, true, 40⟩
    let source := "for 1 .5.x\"é"
    let tokens : List Token := [⟨0, "for", .keyword .kwFor⟩, ⟨3, " ", .whiteSpace⟩,
      ⟨4, "1", .number⟩, ⟨5, " ", .whiteSpace⟩, ⟨6, ".", .dot⟩, ⟨7, "5", .number⟩,
      ⟨8, ".", .dot⟩, ⟨9, "x", .identifier⟩, ⟨10, "\"é", .string⟩]
    let spaced : List (Token × Nat) := [(⟨0, "for", .keyword .kwFor⟩, 3), (⟨4, "1", .number⟩, 1),
      (⟨6, ".", .dot⟩, 0), (⟨7, "5", .number⟩, 2), (⟨8, ".", .dot⟩, 0),
      (⟨9, "x", .identifier⟩, 0), (⟨10, "\"é", .string⟩, 0)]
    tokenize options source = .ok (tokens ++ endMarker true source) ∧ Respaces tokens spaced ∧
      ((significant tokens).IsChain fun t u => source.toUTF8.extract t.stop u.position =
        (String.ofList (List.replicate (t.gap u) ' ')).toUTF8) ∧
      ∃ found, tokenize options (spacedSource 2 spaced) =
          .ok (found ++ endMarker true (spacedSource 2 spaced)) ∧
        (significant found).map Token.toLexeme = (significant tokens).map Token.toLexeme := by
  intro options source tokens spaced
  have hitems : items options source = (tokens ++ endMarker true source).map .token := by
    decide +kernel
  have h : tokenize options source = .ok (tokens ++ endMarker true source) :=
    collect_eq_ok_iff.mpr hitems
  have hspaced : Respaces tokens spaced :=
    { tokens_eq := by decide, apart := by decide +kernel, closed := by simp [spaced] }
  obtain ⟨_, heq, hgaps, hall⟩ := tokenize_respaced h
  obtain rfl := List.append_cancel_right heq
  exact ⟨h, hspaced, hgaps, hall 2 spaced hspaced⟩

end PoxTokens
