import Mathlib.Data.List.Forall2
import PoxTokens.Proofs.Acceptance
import PoxTokens.Proofs.Lookahead

/-!
# PoxTokens.Proofs.Composition

Scanning a text in parts.  Behind a complete text whose lexemes the next one does not
prolong, a scan goes on as if it began there: the results are the same but for their
places, and a report shows more of the text before it (`items_append_of_closes`).

Ten separators are prolonged by nothing and prolong nothing but an open string, so a scan
may be cut in two at any of them (`items_append_separator`).  The point and the equals sign
are not among them, for they prolong numbers and operators.
-/

namespace PoxTokens

/-! ## Results in their places -/

/-- A result of a text, and the same result where the text stands behind some bytes.  A report
is on the same character, but may show more of the text before it. -/
inductive Item.Shifted (offset : Nat) : Item → Item → Prop where
  | token (t : Token) : Shifted offset (.token t) (.token (t.shift offset))
  | failure {e e' : LexError} (hoffset : e'.offset = offset + e.offset)
      (hfound : e'.found = e.found) : Shifted offset (.failure e) (.failure e')

section
variable {offset : Nat} {results behind : List Item}

/-- Lexemes that are placed further behind give the same tokens, shifted. -/
theorem forall₂_shifted_place (position : Nat) (ls : List Lexeme) :
    List.Forall₂ (Item.Shifted offset) ((place position ls).map .token)
      ((place (offset + position) ls).map .token) := by
  rw [← map_shift_place, List.forall₂_map_left_iff, List.forall₂_map_right_iff,
    List.forall₂_map_right_iff, List.forall₂_same]
  exact fun t _ => .token t

/-- Shifted items are collected to shifted tokens. -/
theorem collect_eq_ok_of_shifted (h : List.Forall₂ (Item.Shifted offset) results behind)
    {tokens : List Token} (htokens : Item.collect results = .ok tokens) :
    Item.collect behind = .ok (tokens.map (Token.shift offset)) := by
  induction h generalizing tokens with
  | nil =>
      cases htokens
      rfl
  | cons hitem _ ih =>
      cases hitem with
      | failure => contradiction
      | token t =>
          obtain ⟨ts, hts, rfl⟩ := collect_cons_token_eq_ok_iff.mp htokens
          exact collect_cons_token_eq_ok_iff.mpr ⟨_, ih hts, rfl⟩

/-- A shifted failure is still the first one, for the same character. -/
theorem collect_eq_error_of_shifted (h : List.Forall₂ (Item.Shifted offset) results behind)
    {e : LexError} (he : Item.collect results = .error e) :
    ∃ e', Item.collect behind = .error e' ∧ e'.offset = offset + e.offset ∧
      e'.found = e.found := by
  induction h with
  | nil => contradiction
  | cons hitem _ ih =>
      cases hitem with
      | failure hoffset hfound =>
          cases he
          exact ⟨_, rfl, hoffset, hfound⟩
      | token t =>
          obtain ⟨e', he', hshift⟩ := ih (collect_cons_token_eq_error_iff.mp he)
          exact ⟨e', collect_cons_token_eq_error_iff.mpr he', hshift⟩

end

/-! ## A text behind a complete one -/

section
variable {options : ScanOptions} {a b : String} {xs : List Lexeme}

/-- How a scan ends does not depend on where its text stands. -/
theorem forall₂_shifted_end {ys : List Lexeme} {left : List Char}
    (hb : b.toList = ys.flatMap (·.text) ++ left) (ha : a.toList = xs.flatMap (·.text)) :
    List.Forall₂ (Item.Shifted a.utf8ByteSize)
      (if left = [] then (endMarker options.emitEof b).map .token
        else [.failure (LexError.at b.toList (byteLength (ys.flatMap (·.text)))
          options.contextWidth)])
      (if left = [] then (endMarker options.emitEof (a ++ b)).map .token
        else [.failure (LexError.at (a ++ b).toList (byteLength ((xs ++ ys).flatMap (·.text)))
          options.contextWidth)]) := by
  cases left with
  | nil =>
      cases options.emitEof with
      | false => exact .nil
      | true =>
          have hmarker : Item.Shifted a.utf8ByteSize (.token ⟨b.utf8ByteSize, "", .eof⟩)
              (.token ⟨a.utf8ByteSize + b.utf8ByteSize, "", .eof⟩) := .token _
          simpa [endMarker] using hmarker
  | cons c after =>
      have hab : (a ++ b).toList = (xs ++ ys).flatMap (·.text) ++ c :: after := by
        rw [String.toList_append, ha, hb, List.flatMap_append, List.append_assoc]
      have hsize : byteLength ((xs ++ ys).flatMap (·.text)) =
          a.utf8ByteSize + byteLength (ys.flatMap (·.text)) := by
        rw [List.flatMap_append, byteLength_append, ← ha, byteLength_toList]
      rw [if_neg (List.cons_ne_nil c after), if_neg (List.cons_ne_nil c after), hb, hab,
        LexError.at_byteLength, LexError.at_byteLength]
      exact .cons (.failure hsize rfl) .nil

/-- **Composition**: behind a complete text whose lexemes it does not prolong, a text has the
results that it has by itself, in their places. -/
theorem items_append_of_closes (ha : Cuts options.policy a.toList xs [])
    (hcloses : options.policy.Closes xs b.toList) :
    ∃ behind, items options (a ++ b) = (place 0 xs).map .token ++ behind ∧
      List.Forall₂ (Item.Shifted a.utf8ByteSize) (items options b) behind := by
  obtain ⟨ys, left, hb⟩ := exists_cuts options.policy b.toList
  have hab : Cuts options.policy (a ++ b).toList (xs ++ ys) left := by
    rw [String.toList_append]
    exact ha.join_iff.mpr ⟨hcloses, hb⟩
  have hsize : 0 + byteLength (xs.flatMap (·.text)) = a.utf8ByteSize + 0 := by
    rw [ha.flatMap_text, byteLength_toList, Nat.zero_add, Nat.add_zero]
  rw [items_of_cuts hab, items_of_cuts hb, place_append, hsize, List.map_append, List.append_assoc]
  refine ⟨_, rfl, List.rel_append (forall₂_shifted_place 0 ys) ?_⟩
  exact forall₂_shifted_end hb.flatMap_append.symm ha.flatMap_text.symm

end

/-! ## Characters that prolong nothing -/

/-- Behind a lexeme other than an open string most symbols, and a space unless the lexeme is
blank itself, begin something new. -/
theorem Policy.stops_cons {policy : Policy} {kind : Kind} {u : List Char} {c : Char}
    (hopen : ¬IsOpenString u) (hc : c.isAlphanum = false) (hpoint : c ≠ '.') (hequal : c ≠ '=')
    (hspace : kind = .whiteSpace → c ≠ ' ') (s : List Char) : policy.Stops kind u (c :: s) where
  string h := absurd h hopen
  number _ := leads_digit_of_leads_alphanum (s := c :: s) hc
  fraction _ _ := by rw [Pattern.leadsFraction_cons, beq_false_of_ne hpoint, Bool.false_and]
  blank hk := beq_false_of_ne (hspace hk)
  word _ := hc
  operator _ _ := beq_false_of_ne hequal

/-- The symbols that begin something new behind everything but an open string, and that
nothing prolongs. -/
def separators : List Char := ['(', ')', '\x7b', '\x7d', ',', '-', '+', ';', '/', '*']

section
variable {policy : Policy} {c : Char}

/-- What tells a separator apart: it continues no word, number, operator or blank, and takes one
byte. -/
theorem facts_of_mem_separators (hc : c ∈ separators) :
    c.isAlphanum = false ∧ c ≠ '.' ∧ c ≠ '=' ∧ c ≠ ' ' ∧ c.utf8Size = 1 := by
  simp only [separators, List.mem_cons, List.not_mem_nil, or_false] at hc
  rcases hc with rfl | rfl | rfl | rfl | rfl | rfl | rfl | rfl | rfl | rfl
  all_goals decide

/-- Each separator is a symbol to which no equals sign belongs, and none of them is a point. -/
theorem exists_kind_of_mem_separators (hc : c ∈ separators) :
    ∃ kind, Kind.ofSymbol? c = some kind ∧ kind.withEqual? = none ∧ kind ≠ .dot := by
  simp only [separators, List.mem_cons, List.not_mem_nil, or_false] at hc
  rcases hc with rfl | rfl | rfl | rfl | rfl | rfl | rfl | rfl | rfl | rfl
  all_goals exact ⟨_, rfl, rfl, by decide⟩

/-- A separator closes a complete text that does not end with an open string. -/
theorem closes_separator (hc : c ∈ separators) {xs : List Lexeme}
    (hopen : ∀ l ∈ xs.getLast?, ¬IsOpenString l.text) (s : List Char) :
    policy.Closes xs (c :: s) := by
  obtain ⟨halphanum, hpoint, hequal, hspace, -⟩ := facts_of_mem_separators hc
  exact
    { last := fun l hl =>
        Policy.stops_cons (hopen l hl) halphanum hpoint hequal (fun _ => hspace) s
      point := fun _ _ _ _ => leads_digit_of_leads_alphanum (s := c :: s) halphanum }

/-- A separator behind a complete text is its last lexeme, and nothing prolongs it. -/
theorem Cuts.exists_separator {s : List Char} {xs : List Lexeme} (h : Cuts policy s xs [])
    (hopen : ∀ l ∈ xs.getLast?, ¬IsOpenString l.text) (hc : c ∈ separators) :
    ∃ kind, Kind.ofSymbol? c = some kind ∧ Cuts policy (s ++ [c]) (xs ++ [⟨kind, [c]⟩]) [] ∧
      ∀ t, policy.Closes (xs ++ [⟨kind, [c]⟩]) t := by
  obtain ⟨kind, hkind, hnone, hdot⟩ := exists_kind_of_mem_separators hc
  obtain ⟨hspelling, -, -, hkeyword, hquote⟩ := Kind.facts_of_ofSymbol? hkind
  have hself : policy.Finds [⟨kind, [c]⟩] [] :=
    ⟨(select_symbol_iff hkind).mpr ⟨rfl, fun _ hlong => absurd hnone hlong⟩, trivial⟩
  refine ⟨kind, hkind, h.join_iff.mpr ⟨closes_separator hc hopen [], ?_⟩, fun t => ?_⟩
  · exact cuts_iff_finds.mpr hself
  · refine ⟨fun l hl => ?_, fun a b hsuffix hab => ?_⟩
    · obtain rfl : ⟨kind, [c]⟩ = l := by simpa using hl
      refine .of_fixed hspelling (not_isOpenString_of_ne hquote []) (fun _ hk => ?_)
        fun _ hlong => absurd hnone hlong
      rw [hkeyword] at hk
      contradiction
    · -- the last of the lexemes is the separator, which is no dot
      obtain ⟨t, ht⟩ := hsuffix
      have hcat : t ++ [a] ++ [b] = xs ++ [⟨kind, [c]⟩] := by simpa using ht
      have hb : b = ⟨kind, [c]⟩ := List.singleton_inj.mp (List.append_inj_right' hcat rfl)
      rw [hb] at hab
      exact absurd hab.2.2 hdot

end

/-- **Composition at a separator**: behind a complete text that does not end with an open
string, and a separator, a text has the results that it has by itself, in their places; in
particular it is scanned completely or fails on the same character. -/
theorem items_append_separator (options : ScanOptions) {a : String} {tokens : List Token}
    {c : Char} (ha : tokenize { options with emitEof := false } a = .ok tokens)
    (hopen : ∀ t ∈ tokens.getLast?, ¬IsOpenString t.lexeme.toList) (hc : c ∈ separators)
    (b : String) :
    ∃ kind behind, Kind.ofSymbol? c = some kind ∧
      items options (a ++ String.singleton c ++ b) = tokens.map .token ++
        .token ⟨a.utf8ByteSize, String.singleton c, kind⟩ :: behind ∧
      List.Forall₂ (Item.Shifted (a.utf8ByteSize + 1)) (items options b) behind ∧
      (∀ ts, tokenize options b = .ok ts →
        tokenize options (a ++ String.singleton c ++ b) =
          .ok (tokens ++ ⟨a.utf8ByteSize, String.singleton c, kind⟩ ::
            ts.map (Token.shift (a.utf8ByteSize + 1)))) ∧
      ∀ e, tokenize options b = .error e →
        ∃ e', tokenize options (a ++ String.singleton c ++ b) = .error e' ∧
          e'.offset = a.utf8ByteSize + 1 + e.offset ∧ e'.found = e.found := by
  obtain ⟨xs, hcuts, rfl⟩ := tokenize_unmarked_eq_ok_iff.mp ha
  have hlast : ∀ l ∈ xs.getLast?, ¬IsOpenString l.text := by
    intro l hl
    rw [← map_toLexeme_getLast?_place 0] at hl
    obtain ⟨t, ht, rfl⟩ := Option.map_eq_some_iff.mp hl
    exact hopen t ht
  obtain ⟨kind, hkind, hjoin, hcloses⟩ := hcuts.exists_separator hlast hc
  have htext : (a ++ String.singleton c).toList = a.toList ++ [c] := by simp
  have hsize : (a ++ String.singleton c).utf8ByteSize = a.utf8ByteSize + 1 := by
    simp [(facts_of_mem_separators hc).2.2.2.2]
  have hplace : place 0 (xs ++ [⟨kind, [c]⟩]) =
      place 0 xs ++ [⟨a.utf8ByteSize, String.singleton c, kind⟩] := by
    rw [place_append, hcuts.flatMap_text, byteLength_toList, Nat.zero_add,
      String.singleton_eq_ofList]
    rfl
  rw [← htext] at hjoin
  obtain ⟨behind, hitems, hshifted⟩ := items_append_of_closes hjoin (hcloses b.toList)
  rw [hplace] at hitems
  rw [hsize] at hshifted
  refine ⟨kind, behind, hkind, by simpa using hitems, hshifted, fun ts hts => ?_, fun e he => ?_⟩
  · rw [tokenize, hitems, collect_map_token, collect_eq_ok_of_shifted hshifted hts, Except.map,
      List.append_assoc, List.singleton_append]
  · obtain ⟨e', he', hshift⟩ := collect_eq_error_of_shifted hshifted he
    exact ⟨e', by rw [tokenize, hitems, collect_map_token, he']; rfl, hshift⟩

/-- A number before a point, and a text that fails: the point does not take the digit behind
the separator along. -/
theorem items_append_separator_pointed :
    let tokens : List Token := [⟨0, "1", .number⟩, ⟨1, ".", .dot⟩]
    let options : ScanOptions := ⟨.longest, true, 40⟩
    tokenize ⟨.longest, false, 40⟩ "1." = .ok tokens ∧
      (∀ t ∈ tokens.getLast?, ¬IsOpenString t.lexeme.toList) ∧ '+' ∈ separators ∧
      ∃ kind behind, Kind.ofSymbol? '+' = some kind ∧
        items options ("1." ++ String.singleton '+' ++ "5é") = tokens.map .token ++
          .token ⟨2, String.singleton '+', kind⟩ :: behind ∧
        List.Forall₂ (Item.Shifted 3) (items options "5é") behind ∧
        (∀ ts, tokenize options "5é" = .ok ts →
          tokenize options ("1." ++ String.singleton '+' ++ "5é") =
            .ok (tokens ++ ⟨2, String.singleton '+', kind⟩ :: ts.map (Token.shift 3))) ∧
        ∀ e, tokenize options "5é" = .error e →
          ∃ e', tokenize options ("1." ++ String.singleton '+' ++ "5é") = .error e' ∧
            e'.offset = 3 + e.offset ∧ e'.found = e.found := by
  intro tokens options
  have hitems : items ⟨.longest, false, 40⟩ "1." = tokens.map .token := by decide +kernel
  have h : tokenize ⟨.longest, false, 40⟩ "1." = .ok tokens := collect_eq_ok_iff.mpr hitems
  have hopen : ∀ t ∈ tokens.getLast?, ¬IsOpenString t.lexeme.toList := by
    rintro _ ⟨rfl⟩
    exact not_isOpenString_of_ne (by decide) []
  have hc : '+' ∈ separators := by decide
  exact ⟨h, hopen, hc, items_append_separator options h hopen hc "5é"⟩

end PoxTokens
