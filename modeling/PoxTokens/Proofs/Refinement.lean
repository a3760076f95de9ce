import PoxTokens.Proofs.Acceptance
import PoxTokens.Proofs.Lookahead

/-!
# PoxTokens.Proofs.Refinement

How the policies relate.  `firstMatch` takes an operator with an equals sign apart, and
peels reserved words and numbers off the front of an identifier.  So it splits the lexemes
of `longest` further, each as it would split it by itself (`Lexeme.pieces`), unless the last
piece of a lexeme is prolonged by what follows the lexeme.  That happens in one way only:
the last piece of an identifier is a number, and a point and a number follow, as in
`for1.5` (`closes_pieces_iff`).

Both scans are cut at the ends of the lexemes of `longest`, one lexeme at a time, as long as
the pieces of each are not prolonged (`cuts_flatMap_pieces_iff`).

The scans are the same exactly if no lexeme of `longest` is one that `firstMatch` never makes
(`tokenize_firstMatch_eq_longest_iff`).
-/

namespace PoxTokens

/-! ## Both policies on one text -/

section
variable {policy : Policy} {s rest left : List Char} {l : Lexeme} {ls : List Lexeme}

/-- A text that one policy cuts completely is cut completely by each. -/
theorem Cuts.exists_cuts_nil (h : Cuts policy s ls []) (other : Policy) :
    ∃ ms, Cuts other s ms [] := by
  have hcut := cuts_lexemes other s
  have hoffending := hcut.firstOffending?_eq
  rw [h.firstOffending?_eq] at hoffending
  have hleft : (lexemes other s).2 = [] :=
    List.head?_eq_none_iff.mp (Option.map_eq_none_iff.mp hoffending.symm)
  rw [hleft] at hcut
  exact ⟨_, hcut⟩

/-- A lexeme that stops under `longest` stops under `firstMatch`. -/
theorem Policy.Stops.firstMatch {kind : Kind} {u : List Char} (h : longest.Stops kind u rest) :
    firstMatch.Stops kind u rest where
  string := h.string
  number := h.number
  fraction := h.fraction
  blank := h.blank
  word hk := h.word (hk.imp_right fun hkeyword => ⟨rfl, hkeyword.2⟩)
  operator := nofun

/-- What `firstMatch` makes of the text of a lexeme. -/
def Lexeme.pieces (l : Lexeme) : List Lexeme := (lexemes .firstMatch l.text).1

theorem Lexeme.pieces_eq_of_cuts (h : Cuts .firstMatch l.text ls []) : l.pieces = ls := by
  rw [pieces, cuts_iff_lexemes_eq.mp h]

/-- The text of a lexeme is cut completely by the first match. -/
theorem cuts_pieces (h : policy.select ruleTable (l.text ++ rest) = some l) :
    Cuts .firstMatch l.text l.pieces [] := by
  obtain ⟨ms, hms⟩ := (cuts_text_of_select h).exists_cuts_nil .firstMatch
  rwa [Lexeme.pieces_eq_of_cuts hms]

/-- So is the text of each lexeme of a source. -/
theorem Cuts.forall_mem_pieces (h : Cuts policy s ls left) :
    ∀ l ∈ ls, Cuts .firstMatch l.text l.pieces [] := by
  induction h with
  | stop => simp
  | step hselect _ ih => exact List.forall_mem_cons.mpr ⟨cuts_pieces hselect, ih⟩

/-! ## Pieces that what follows prolongs -/

/-- An identifier whose last piece is a number. -/
def UncoversNumber (l : Lexeme) : Prop :=
  l.kind = .identifier ∧ ∃ n ∈ l.pieces.getLast?, n.kind = .number

/-- The pieces of a word are words and numbers, and only a number at the end can be
prolonged by what does not prolong the word. -/
theorem closes_pieces_of_isWord (hword : IsWord l.text) (hkind : l.kind = .identifier)
    (hrest : leads Char.isAlphanum rest = false) (hcuts : Cuts .firstMatch l.text l.pieces []) :
    Policy.firstMatch.Closes l.pieces rest ↔
      (UncoversNumber l → Pattern.leadsFraction rest = false) := by
  have halphanum : ∀ n ∈ l.pieces, ∀ c ∈ n.text, c.isAlphanum := by
    intro n hn c hc
    refine hword.isAlphanum c ?_
    rw [← hcuts.flatMap_text]
    exact List.mem_flatMap.mpr ⟨n, hn, hc⟩
  have hkinds : ∀ n ∈ l.pieces,
      n.kind = .number ∨ n.kind = .identifier ∨ n.kind.isKeyword := by
    intro n hn
    obtain ⟨c, v, heq, hdigit, halpha, -⟩ := (hcuts.spelled n hn).exists_cons
    have hc := halphanum n hn c (by simp [heq])
    rw [Char.isAlphanum, hdigit, halpha] at hc
    simpa [or_comm, or_assoc, or_left_comm] using hc
  constructor
  · rintro hcloses ⟨-, n, hn, hnumber⟩
    refine (hcloses.last n hn).fraction hnumber fun hpoint => ?_
    have := halphanum n (List.mem_of_getLast? hn) '.' hpoint
    contradiction
  · intro hfraction
    refine ⟨fun n hn => ?_, fun a b hsuffix hab => ?_⟩
    · have hmem := List.mem_of_getLast? hn
      have hopen : ¬IsOpenString n.text := by
        rintro ⟨body, -, heq⟩
        have := halphanum n hmem '"' (by simp [heq])
        contradiction
      exact
        { string := fun h => absurd h hopen
          number := fun _ => leads_digit_of_leads_alphanum hrest
          fraction := fun hk _ => hfraction ⟨hkind, n, hn, hk⟩
          blank := fun hk => by
            have := hkinds n hmem
            simp [hk, Kind.isKeyword] at this
          word := fun _ => hrest
          operator := fun hlongest => absurd hlongest (by decide) }
    · have := hkinds b (hsuffix.subset (by simp))
      simp [hab.2.2, Kind.isKeyword] at this

/-- The kinds that end in an equals sign have a symbol without it. -/
theorem Kind.exists_withEqual_of_mem {kind : Kind}
    (h : kind ∈ [bangEqual, equalEqual, greaterEqual, lessEqual]) :
    ∃ c short, ofSymbol? c = some short ∧ short.withEqual? = some kind := by
  simp only [List.mem_cons, List.not_mem_nil, or_false] at h
  rcases h with rfl | rfl | rfl | rfl
  · exact ⟨'!', bang, rfl, rfl⟩
  · exact ⟨'=', equal, rfl, rfl⟩
  · exact ⟨'>', greater, rfl, rfl⟩
  · exact ⟨'<', less, rfl, rfl⟩

/-- An operator with an equals sign has two pieces. -/
theorem pieces_of_withEqual {c : Char} {short : Kind} (hc : Kind.ofSymbol? c = some short)
    (hlong : short.withEqual? = some l.kind) (hl : l.kind.Spells l.text) :
    l.pieces = [⟨short, [c]⟩, ⟨.equal, ['=']⟩] := by
  have htext : l.text = [c, '='] := by
    rw [Kind.spells_iff_of_spelling? (Kind.facts_of_withEqual? hc hlong).1] at hl
    simpa using hl
  refine Lexeme.pieces_eq_of_cuts ?_
  have hfinds : Policy.firstMatch.Finds [⟨short, [c]⟩, ⟨.equal, ['=']⟩] [] :=
    ⟨(select_symbol_iff hc).mpr ⟨rfl, nofun⟩,
      (select_symbol_iff (c := '=') rfl).mpr ⟨rfl, nofun⟩, trivial⟩
  rw [htext]
  exact cuts_iff_finds.mpr hfinds

/-- What follows a lexeme of `longest` prolongs its pieces exactly if they end with a number
that the lexeme does not show, and a fraction follows. -/
theorem closes_pieces_iff (h : Policy.longest.select ruleTable (l.text ++ rest) = some l) :
    Policy.firstMatch.Closes l.pieces rest ↔
      (UncoversNumber l → Pattern.leadsFraction rest = false) := by
  obtain ⟨hspells, -, hstops⟩ := Policy.select_append_iff.mp h
  by_cases hword : l.kind = .identifier
  · have hrest := hstops.word (.inl hword)
    rw [hword, Kind.spells_identifier_iff] at hspells
    exact closes_pieces_of_isWord hspells hword hrest (cuts_pieces h)
  refine iff_of_true ?_ fun huncovers => absurd huncovers.1 hword
  by_cases hlong : l.kind ∈ [.bangEqual, .equalEqual, .greaterEqual, .lessEqual]
  · obtain ⟨c, short, hc, hshort⟩ := Kind.exists_withEqual_of_mem hlong
    rw [pieces_of_withEqual hc hshort hspells, Policy.closes_cons_cons_iff,
      Policy.closes_singleton_iff]
    exact ⟨fun _ hpointed => absurd hpointed.2.2 (by simp),
      .of_fixed rfl (not_isOpenString_of_ne (by decide) []) nofun nofun⟩
  · have hyields : Policy.firstMatch.Yields l.kind l.text := Policy.yields_of_ne hlong hword
    have hself : Policy.firstMatch.select ruleTable (l.text ++ rest) = some l :=
      Policy.select_append_iff.mpr ⟨hspells, hyields, hstops.firstMatch⟩
    rw [Lexeme.pieces_eq_of_cuts (cuts_text_of_select hself), Policy.closes_singleton_iff]
    exact hstops.firstMatch

/-! ## Cutting at the ends of lexemes -/

/-- An identifier that uncovers a number, before a point and a number. -/
def UncoversFraction (a b c : Lexeme) : Prop :=
  UncoversNumber a ∧ b.kind = .dot ∧ c.kind = .number

/-- A text begins with a fraction exactly if its first lexemes are a dot and a number. -/
theorem leadsFraction_flatMap_iff (h : ∀ m ∈ ls, m.kind.Spells m.text) :
    Pattern.leadsFraction (ls.flatMap (·.text)) = false ↔
      ∀ b c, [b, c] <+: ls → ¬(b.kind = .dot ∧ c.kind = .number) := by
  cases ls with
  | nil => simp [Pattern.leadsFraction]
  | cons b ls =>
      obtain ⟨hb, hls⟩ := List.forall_mem_cons.mp h
      rw [List.flatMap_cons, hb.leadsFraction]
      cases ls with
      | nil => simp
      | cons c ls =>
          rw [List.flatMap_cons, (hls c List.mem_cons_self).leads_digit]
          simp [List.cons_prefix_cons]

/-- **Splitting**: under `firstMatch` the pieces of the lexemes of `longest` make up the cut
of the text exactly if no identifier uncovers a number that a point and a number follow. -/
theorem cuts_flatMap_pieces_iff (h : Cuts .longest s ls []) :
    Cuts .firstMatch s (ls.flatMap Lexeme.pieces) [] ↔
      ∀ a b c, [a, b, c] <:+: ls → ¬UncoversFraction a b c := by
  induction ls generalizing s with
  | nil =>
      have hs : s = [] := h.flatMap_text.symm
      have hcuts : Cuts .firstMatch [] [] [] := .stop (Policy.select_nil _ ruleTable)
      simpa [hs] using hcuts
  | cons l ls ih =>
      obtain ⟨rest, rfl, hselect, hcuts⟩ := cuts_cons_iff.mp h
      have hfraction := leadsFraction_flatMap_iff hcuts.spelled
      rw [hcuts.flatMap_text] at hfraction
      rw [List.flatMap_cons, (cuts_pieces hselect).join_iff, closes_pieces_iff hselect, ih hcuts,
        hfraction]
      constructor
      · rintro ⟨hhead, htail⟩ a b c hinfix ⟨huncovers, hbc⟩
        rcases List.infix_cons_iff.mp hinfix with hprefix | hinfix
        · obtain ⟨rfl, htwo⟩ := List.cons_prefix_cons.mp hprefix
          exact hhead huncovers b c htwo hbc
        · exact htail a b c hinfix ⟨huncovers, hbc⟩
      · intro hnone
        refine ⟨fun huncovers b c hprefix hbc => ?_, fun a b c hinfix => ?_⟩
        · have hthree : [l, b, c] <+: l :: ls := List.cons_prefix_cons.mpr ⟨rfl, hprefix⟩
          exact hnone l b c hthree.isInfix ⟨huncovers, hbc⟩
        · exact hnone a b c (List.infix_cons hinfix)

end

/-! ## Tokens -/

/-- Tokens in their places determine the lexemes. -/
theorem place_injective {position : Nat} {ls ms : List Lexeme} :
    place position ls = place position ms ↔ ls = ms := by
  constructor
  · intro h
    rw [← map_toLexeme_place position ls, h, map_toLexeme_place]
  · rintro rfl
    rfl

/-- The pieces of lexemes that follow each other, in the places of the lexemes. -/
theorem flatMap_place_pieces {position : Nat} {ls : List Lexeme}
    (h : ∀ l ∈ ls, l.pieces.flatMap (·.text) = l.text) :
    (place position ls).flatMap
        (fun t => (place 0 t.toLexeme.pieces).map (Token.shift t.position)) =
      place position (ls.flatMap Lexeme.pieces) := by
  induction ls generalizing position with
  | nil => rfl
  | cons l ls ih =>
      obtain ⟨hl, hls⟩ := List.forall_mem_cons.mp h
      rw [place, List.flatMap_cons, ih hls, List.flatMap_cons, place_append, hl,
        map_shift_place, Lexeme.toLexeme_at, Lexeme.position_at, Nat.add_zero]

/-- Three tokens in a row are three lexemes in a row. -/
theorem infix_place_iff {P : Lexeme → Lexeme → Lexeme → Prop} (position : Nat) {ls : List Lexeme} :
    (∀ a b c, [a, b, c] <:+: place position ls → ¬P a.toLexeme b.toLexeme c.toLexeme) ↔
      ∀ a b c, [a, b, c] <:+: ls → ¬P a b c := by
  have hmap := map_toLexeme_place position ls
  constructor
  · intro h a b c hinfix
    rw [← hmap, List.infix_map_iff] at hinfix
    obtain ⟨tokens, htokens, heq⟩ := hinfix
    match tokens with
    | [x, y, z] =>
        simp only [List.map_cons, List.map_nil, List.cons.injEq] at heq
        obtain ⟨rfl, rfl, rfl, -⟩ := heq
        exact h x y z htokens
  · intro h a b c hinfix
    have hlexemes := hinfix.map Token.toLexeme
    rw [hmap] at hlexemes
    exact h _ _ _ hlexemes

theorem exists_getLast?_place_iff {kind : Kind} {position : Nat} {ls : List Lexeme} :
    (∃ t ∈ (place position ls).getLast?, t.kind = kind) ↔ ∃ l ∈ ls.getLast?, l.kind = kind := by
  rw [← map_toLexeme_getLast?_place position ls]
  simp [Token.toLexeme]

/-- **Refinement**: where `longest` scans a source completely, so does `firstMatch`, and it
splits each token as it splits the text of the token by itself, exactly if no identifier
that ends with a number when it is split stands before a dot and a number. -/
theorem tokenize_firstMatch_of_longest {contextWidth : Nat} {source : String} {tokens : List Token}
    (h : tokenize ⟨.longest, false, contextWidth⟩ source = .ok tokens) :
    ∃ (splits : List Token) (pieces : Token → List Token),
      tokenize ⟨.firstMatch, false, contextWidth⟩ source = .ok splits ∧
      (∀ t ∈ tokens, tokenize ⟨.firstMatch, false, contextWidth⟩ t.lexeme = .ok (pieces t)) ∧
      (splits = tokens.flatMap (fun t => (pieces t).map (Token.shift t.position)) ↔
        ∀ a b c, [a, b, c] <:+: tokens →
          ¬(a.kind = .identifier ∧ b.kind = .dot ∧ c.kind = .number ∧
            ∃ n ∈ (pieces a).getLast?, n.kind = .number)) := by
  have hplace : ∀ (policy : Policy) (s : String) (ls : List Lexeme), Cuts policy s.toList ls [] →
      tokenize ⟨policy, false, contextWidth⟩ s = .ok (place 0 ls) :=
    fun _ _ ls hcuts => tokenize_unmarked_eq_ok_iff.mpr ⟨ls, hcuts, rfl⟩
  obtain ⟨ls, hcuts, rfl⟩ := tokenize_unmarked_eq_ok_iff.mp h
  obtain ⟨ms, hms⟩ := hcuts.exists_cuts_nil .firstMatch
  have hpieces : ∀ l ∈ ls, Cuts .firstMatch l.text l.pieces [] := hcuts.forall_mem_pieces
  refine ⟨place 0 ms, fun t => place 0 t.toLexeme.pieces, hplace _ _ _ hms, fun t ht => ?_, ?_⟩
  · obtain ⟨xs, l, ys, rfl, rfl⟩ := exists_of_mem_place ht
    refine hplace _ _ _ ?_
    rw [Lexeme.toLexeme_at, Lexeme.lexeme_at, String.toList_ofList]
    exact hpieces l (by simp)
  · have hsame : ms = ls.flatMap Lexeme.pieces ↔
        Cuts .firstMatch source.toList (ls.flatMap Lexeme.pieces) [] :=
      ⟨fun heq => heq ▸ hms, fun h => (h.unique hms).1⟩
    rw [flatMap_place_pieces fun l hl => (hpieces l hl).flatMap_text, place_injective, hsame,
      cuts_flatMap_pieces_iff hcuts, ← infix_place_iff 0]
    refine forall₃_congr fun a b c => imp_congr_right fun _ => not_congr ?_
    rw [exists_getLast?_place_iff]
    constructor
    · rintro ⟨⟨hword, hlast⟩, hdot, hnumber⟩
      exact ⟨hword, hdot, hnumber, hlast⟩
    · rintro ⟨hword, hdot, hnumber, hlast⟩
      exact ⟨⟨hword, hlast⟩, hdot, hnumber⟩

/-- Both operators of `!==` are split, and so is `ifx`; but `for1` uncovers a number that takes
the fraction behind it along. -/
theorem tokenize_firstMatch_of_longest_uncovered :
    let source := "ifx!==for1.5"
    let tokens : List Token := [⟨0, "ifx", .identifier⟩, ⟨3, "!=", .bangEqual⟩, ⟨5, "=", .equal⟩,
      ⟨6, "for1", .identifier⟩, ⟨10, ".", .dot⟩, ⟨11, "5", .number⟩]
    tokenize ⟨.longest, false, 40⟩ source = .ok tokens ∧
      ∃ (splits : List Token) (pieces : Token → List Token),
        tokenize ⟨.firstMatch, false, 40⟩ source = .ok splits ∧
        (∀ t ∈ tokens, tokenize ⟨.firstMatch, false, 40⟩ t.lexeme = .ok (pieces t)) ∧
        (splits = tokens.flatMap (fun t => (pieces t).map (Token.shift t.position)) ↔
          ∀ a b c, [a, b, c] <:+: tokens →
            ¬(a.kind = .identifier ∧ b.kind = .dot ∧ c.kind = .number ∧
              ∃ n ∈ (pieces a).getLast?, n.kind = .number)) := by
  intro source tokens
  have hitems : items ⟨.longest, false, 40⟩ source = tokens.map .token := by decide +kernel
  have h : tokenize ⟨.longest, false, 40⟩ source = .ok tokens := by rw [tokenize, hitems]; rfl
  exact ⟨h, tokenize_firstMatch_of_longest h⟩

/-! ## When both policies agree -/

/-- Neighbours that stand apart under `longest` stand apart under `firstMatch`. -/
theorem Policy.Apart.firstMatch {a b : Lexeme} (h : longest.Apart a b) : firstMatch.Apart a b where
  word hk := h.word (hk.imp_right fun hkeyword => ⟨rfl, hkeyword.2⟩)
  number := h.number
  blank := h.blank
  operator := nofun

/-- Of the conditions on separable lexemes only the one on single lexemes is stricter under
`firstMatch`. -/
theorem Separable.firstMatch_iff {ls : List Lexeme} (h : Separable .longest ls) :
    Separable .firstMatch ls ↔ ∀ l ∈ ls, Policy.firstMatch.Yields l.kind l.text := by
  constructor
  · intro hfirst l hl
    exact (hfirst.spelled l hl).2
  · intro hyields
    exact
      { spelled := fun l hl => ⟨(h.spelled l hl).1, hyields l hl⟩
        closed := h.closed
        apart := h.apart.imp fun _ _ hab => hab.firstMatch
        not_fractional := h.not_fractional }

/-- The first match cuts a text like the longest match exactly if it yields each of the lexemes by
itself. -/
theorem Cuts.firstMatch_iff {s : List Char} {ls : List Lexeme} (h : Cuts .longest s ls []) :
    Cuts .firstMatch s ls [] ↔ ∀ l ∈ ls, Policy.firstMatch.Yields l.kind l.text := by
  obtain rfl := h.flatMap_text
  rw [cuts_iff_separable]
  exact (cuts_iff_separable.mp h).firstMatch_iff

/-- A property of lexemes holds of all tokens of a scan if it holds of all lexemes of the cut
and of the end marker. -/
theorem forall_mem_place_append_endMarker_iff {P : Lexeme → Prop} (hmarker : P ⟨.eof, []⟩)
    {position : Nat} {ls : List Lexeme} {emitEof : Bool} {source : String} :
    (∀ t ∈ place position ls ++ endMarker emitEof source, P t.toLexeme) ↔ ∀ l ∈ ls, P l := by
  have hmarkers : ∀ t ∈ endMarker emitEof source, P t.toLexeme := by
    cases emitEof with
    | false => simp [endMarker]
    | true => simpa [endMarker, Token.toLexeme] using hmarker
  have hmap := List.forall_mem_map (f := Token.toLexeme) (l := place position ls) (P := P)
  rw [map_toLexeme_place] at hmap
  rw [List.forall_mem_append, hmap]
  exact and_iff_left hmarkers

/-- **Agreement**: where `longest` scans a source completely, `firstMatch` answers the same
tokens exactly if none is an operator that ends with an equals sign and none an identifier
that begins with a reserved word. -/
theorem tokenize_firstMatch_eq_longest_iff {emitEof : Bool} {contextWidth : Nat} {source : String}
    {tokens : List Token} (h : tokenize ⟨.longest, emitEof, contextWidth⟩ source = .ok tokens) :
    tokenize ⟨.firstMatch, emitEof, contextWidth⟩ source = .ok tokens ↔
      ∀ t ∈ tokens, t.kind ∉ [.bangEqual, .equalEqual, .greaterEqual, .lessEqual] ∧
        (t.kind = .identifier → ∀ w : Keyword, ¬w.spelling.toList <+: t.lexeme.toList) := by
  obtain ⟨ls, hcuts, rfl⟩ := tokenize_eq_ok_iff.mp h
  have hsame : tokenize ⟨.firstMatch, emitEof, contextWidth⟩ source =
      .ok (place 0 ls ++ endMarker emitEof source) ↔ Cuts .firstMatch source.toList ls [] := by
    rw [tokenize_eq_ok_iff]
    constructor
    · rintro ⟨ms, hms, heq⟩
      rwa [place_injective.mp (List.append_cancel_right heq)]
    · intro hls
      exact ⟨ls, hls, rfl⟩
  rw [hsame, hcuts.firstMatch_iff]
  exact (forall_mem_place_append_endMarker_iff
    (P := fun l => Policy.firstMatch.Yields l.kind l.text) ⟨by decide, nofun⟩).symm

/-- A number before a point, a reserved word, an identifier that has one in its middle and an
open string are the same to both policies. -/
theorem tokenize_firstMatch_eq_longest_plain :
    let source := "1.if xif=\"=="
    let tokens : List Token := [⟨0, "1", .number⟩, ⟨1, ".", .dot⟩, ⟨2, "if", .keyword .kwIf⟩,
      ⟨4, " ", .whiteSpace⟩, ⟨5, "xif", .identifier⟩, ⟨8, "=", .equal⟩, ⟨9, "\"==", .string⟩,
      ⟨12, "", .eof⟩]
    tokenize ⟨.longest, true, 40⟩ source = .ok tokens ∧
      (tokenize ⟨.firstMatch, true, 40⟩ source = .ok tokens ↔
        ∀ t ∈ tokens, t.kind ∉ [.bangEqual, .equalEqual, .greaterEqual, .lessEqual] ∧
          (t.kind = .identifier → ∀ w : Keyword, ¬w.spelling.toList <+: t.lexeme.toList)) := by
  intro source tokens
  have hitems : items ⟨.longest, true, 40⟩ source = tokens.map .token := by decide +kernel
  have h : tokenize ⟨.longest, true, 40⟩ source = .ok tokens := collect_eq_ok_iff.mpr hitems
  exact ⟨h, tokenize_firstMatch_eq_longest_iff h⟩

end PoxTokens
