import PoxTokens.Proofs.Acceptance
import PoxTokens.Proofs.Lookahead

/-!
# PoxTokens.Proofs.Locality

A scan is local.  The tokens of a scan meet at its boundaries.  The piece of the source
between two boundaries, scanned by itself, has the tokens that lie between them; from any
boundary on, a scan fails where the scan of the whole source failed; and every lexeme is
its own only token (`scan_local`).

What stands before a boundary has no part in a scan by the recursion of `lexemes`.  What
stands behind it could only have prolonged the lexemes before it, and did not
(`Cuts.between`).
-/

namespace PoxTokens

/-! ## Boundaries -/

/-- The token of a result that is no report. -/
def Item.token? : Item → Option Token
  | .token t => some t
  | .failure _ => none

/-- The tokens of a scan up to its end or its failure, without the end marker. -/
def yielded (options : ScanOptions) (source : String) : List Token :=
  (items { options with emitEof := false } source).filterMap Item.token?

/-- Where a scan starts, and where each of its tokens stops. -/
def boundaries (options : ScanOptions) (source : String) : List Nat :=
  0 :: (yielded options source).map Token.stop

/-- The tokens of a scan that lie between two byte offsets. -/
def yieldedBetween (options : ScanOptions) (source : String) (start stop : Nat) : List Token :=
  (yielded options source).filter fun t => start ≤ t.position ∧ t.stop ≤ stop

section
variable {options : ScanOptions} {source : String} {left : List Char} {ls xs ys : List Lexeme}

/-- The tokens that a scan yields are the lexemes in their places, also if it fails behind them. -/
theorem yielded_of_cuts (h : Cuts options.policy source.toList ls left) :
    yielded options source = place 0 ls := by
  have hcuts : Cuts { options with emitEof := false }.policy source.toList ls left := h
  have htokens : Item.token? ∘ .token = some := rfl
  rw [yielded, items_of_cuts hcuts, List.filterMap_append, List.filterMap_map, htokens,
    List.filterMap_some]
  split <;> simp [endMarker, List.filterMap_cons, Item.token?]

/-- A boundary stands between two lexemes, or at an end. -/
theorem mem_boundaries_iff (h : Cuts options.policy source.toList ls left) {offset : Nat} :
    offset ∈ boundaries options source ↔
      ∃ xs ys, ls = xs ++ ys ∧ byteLength (xs.flatMap (·.text)) = offset := by
  rw [boundaries, yielded_of_cuts h, List.mem_cons, List.mem_map]
  constructor
  · rintro (rfl | ⟨t, ht, rfl⟩)
    · exact ⟨[], ls, rfl, rfl⟩
    · obtain ⟨xs, l, ys, rfl, rfl⟩ := exists_of_mem_place ht
      exact ⟨xs ++ [l], ys, by simp, by simp⟩
  · rintro ⟨xs, ys, rfl, rfl⟩
    rcases xs.eq_nil_or_concat' with rfl | ⟨ws, l, rfl⟩
    · exact .inl rfl
    · refine .inr ⟨l.at (0 + byteLength (ws.flatMap (·.text))), ?_, by simp⟩
      rw [List.append_assoc, place_append]
      exact List.mem_append_right _ (.head _)

/-- Of two boundaries the later one has all lexemes of the earlier one before it. -/
theorem exists_append_of_byteLength_le {xs' ys' : List Lexeme} (hne : ∀ l ∈ xs, l.text ≠ [])
    (h : xs ++ ys = xs' ++ ys')
    (hle : byteLength (xs.flatMap (·.text)) ≤ byteLength (xs'.flatMap (·.text))) :
    ∃ ms, xs' = xs ++ ms ∧ ys = ms ++ ys' := by
  rcases List.append_eq_append_iff.mp h with ⟨ms, hxs, hys⟩ | ⟨ms, hxs, hys⟩
  · exact ⟨ms, hxs, hys⟩
  · subst hxs
    cases ms with
    | nil => exact ⟨[], by simp, hys.symm⟩
    | cons m ms =>
        have hm : byteLength m.text ≠ 0 := fun hzero =>
          hne m (by simp) (byteLength_eq_zero_iff.mp hzero)
        simp at hle
        omega

/-! ## Places of tokens -/

/-- A token is not empty and lies within the text from which it was cut. -/
theorem bounds_of_mem_place {t : Token} {position : Nat} (hne : ∀ l ∈ ls, l.text ≠ [])
    (h : t ∈ place position ls) :
    position ≤ t.position ∧ t.position < t.stop ∧
      t.stop ≤ position + byteLength (ls.flatMap (·.text)) := by
  obtain ⟨xs, l, ys, rfl, rfl⟩ := exists_of_mem_place h
  have hl : byteLength l.text ≠ 0 := fun hzero => hne l (by simp) (byteLength_eq_zero_iff.mp hzero)
  simp
  omega

/-- The tokens between two boundaries are the lexemes between them. -/
theorem filter_place_append {zs : List Lexeme} {start stop : Nat}
    (hne : ∀ l ∈ xs ++ (ys ++ zs), l.text ≠ []) (hstart : byteLength (xs.flatMap (·.text)) = start)
    (hstop : start + byteLength (ys.flatMap (·.text)) = stop) :
    (place 0 (xs ++ (ys ++ zs))).filter (fun t => start ≤ t.position ∧ t.stop ≤ stop) =
      place start ys := by
  simp only [List.forall_mem_append] at hne
  obtain ⟨hxs, hys, hzs⟩ := hne
  rw [place_append, place_append, Nat.zero_add, hstart, List.filter_append, List.filter_append,
    List.filter_eq_nil_iff.mpr, List.filter_eq_self.mpr, List.filter_eq_nil_iff.mpr]
  · simp
  all_goals
    intro t ht
    have := bounds_of_mem_place (by assumption) ht
    simp
    omega

/-! ## Pieces of a source -/

/-- What stands between two lexemes of a cut is cut from its own text in the same way. -/
theorem Cuts.between {policy : Policy} {s : List Char} {zs : List Lexeme}
    (h : Cuts policy s (xs ++ (ys ++ zs)) left) :
    ∃ rest, s = xs.flatMap (·.text) ++ (ys.flatMap (·.text) ++ rest) ∧
      Cuts policy (ys.flatMap (·.text)) ys [] := by
  obtain ⟨_, rfl, -, hcuts⟩ := cuts_append_iff.mp h
  obtain ⟨rest, rfl, hfinds, -⟩ := cuts_append_iff.mp hcuts
  exact ⟨rest, rfl, cuts_iff_finds.mpr (Policy.finds_iff.mp hfinds).1⟩

/-- The piece between two boundaries has the tokens between them. -/
theorem Cuts.tokenize_between {zs : List Lexeme} {start stop : Nat}
    (h : Cuts options.policy source.toList (xs ++ (ys ++ zs)) left)
    (hstart : byteLength (xs.flatMap (·.text)) = start)
    (hstop : start + byteLength (ys.flatMap (·.text)) = stop) :
    ∃ (piece : String) (tokens : List Token),
      piece.toUTF8 = source.toUTF8.extract start stop ∧
      tokenize options piece = .ok (tokens ++ endMarker options.emitEof piece) ∧
      tokens.map (Token.shift start) = yieldedBetween options source start stop := by
  obtain ⟨rest, hsource, hcuts⟩ := h.between
  refine ⟨String.ofList (ys.flatMap (·.text)), place 0 ys, ?_, ?_, ?_⟩
  · rw [← hstop, ← hstart]
    exact toUTF8_ofList_eq_extract hsource
  · exact tokenize_of_cuts_nil (by rw [String.toList_ofList]; exact hcuts)
  · rw [map_shift_place, yieldedBetween, yielded_of_cuts h]
    exact (filter_place_append h.text_ne_nil hstart hstop).symm

/-- From a boundary on a scan fails where it failed in the whole source. -/
theorem Cuts.items_from {c : Char} {after : List Char} {start stop : Nat}
    (h : Cuts options.policy source.toList (xs ++ ys) (c :: after))
    (hstart : byteLength (xs.flatMap (·.text)) = start)
    (hstop : start + byteLength (ys.flatMap (·.text)) = stop) :
    ∃ (piece : String) (tokens : List Token) (e : LexError),
      piece.toUTF8 = source.toUTF8.extract start source.utf8ByteSize ∧
      items options piece = tokens.map .token ++ [.failure e] ∧
      tokens.map (Token.shift start) = yieldedBetween options source start stop ∧
      stop = start + e.offset ∧ e.found = c := by
  obtain ⟨rest, hsource, -, hcuts⟩ := cuts_append_iff.mp h
  have hpiece : source.toList = xs.flatMap (·.text) ++ (rest ++ []) := by simpa using hsource
  have hsize : source.utf8ByteSize = start + byteLength rest := by
    rw [← byteLength_toList, hsource, byteLength_append, hstart]
  have hlist : (String.ofList rest).toList = rest := String.toList_ofList
  refine ⟨String.ofList rest, place 0 ys,
    LexError.at rest (byteLength (ys.flatMap (·.text))) options.contextWidth, ?_, ?_, ?_, ?_⟩
  · rw [hsize, ← hstart]
    exact toUTF8_ofList_eq_extract hpiece
  · rw [items_of_cuts (by rw [hlist]; exact hcuts), if_neg (by simp), hlist]
  · have hls : xs ++ ys = xs ++ (ys ++ []) := by simp
    rw [map_shift_place, yieldedBetween, yielded_of_cuts h, hls]
    exact (filter_place_append (hls ▸ h.text_ne_nil) hstart hstop).symm
  · rw [← hcuts.flatMap_append, LexError.at_byteLength]
    exact ⟨hstop.symm, rfl⟩

end

/-- **Locality**: the piece of a source between two boundaries of its scan has the tokens
between them, from each boundary on the scan fails where it failed in the source, and each
lexeme is its own only token. -/
theorem scan_local (options : ScanOptions) (source : String) :
    (∀ start ∈ boundaries options source, ∀ stop ∈ boundaries options source, start ≤ stop →
      ∃ (piece : String) (tokens : List Token),
        piece.toUTF8 = source.toUTF8.extract start stop ∧
        tokenize options piece = .ok (tokens ++ endMarker options.emitEof piece) ∧
        tokens.map (Token.shift start) = yieldedBetween options source start stop) ∧
    (∀ e, tokenize options source = .error e → ∀ start ∈ boundaries options source,
      ∃ (piece : String) (tokens : List Token) (e' : LexError),
        piece.toUTF8 = source.toUTF8.extract start source.utf8ByteSize ∧
        items options piece = tokens.map .token ++ [.failure e'] ∧
        tokens.map (Token.shift start) = yieldedBetween options source start e.offset ∧
        e.offset = start + e'.offset ∧ e'.found = e.found) ∧
    ∀ t ∈ yielded options source,
      tokenize options t.lexeme =
        .ok (⟨0, t.lexeme, t.kind⟩ :: endMarker options.emitEof t.lexeme) := by
  have hcut := cuts_lexemes options.policy source.toList
  generalize (lexemes options.policy source.toList).1 = ls at hcut
  generalize (lexemes options.policy source.toList).2 = left at hcut
  refine ⟨fun start hstart stop hstop hle => ?_, fun e he start hstart => ?_, fun t ht => ?_⟩
  · obtain ⟨xs, ys, rfl, rfl⟩ := (mem_boundaries_iff hcut).mp hstart
    obtain ⟨xs', zs, heq, rfl⟩ := (mem_boundaries_iff hcut).mp hstop
    have hne : ∀ l ∈ xs, l.text ≠ [] := fun l hl => hcut.text_ne_nil l (List.mem_append_left _ hl)
    obtain ⟨ms, rfl, rfl⟩ := exists_append_of_byteLength_le hne heq hle
    exact hcut.tokenize_between rfl (by simp)
  · obtain ⟨ls', left', hcut', hne, rfl⟩ := tokenize_eq_error_iff.mp he
    obtain ⟨rfl, rfl⟩ := hcut.unique hcut'
    obtain ⟨c, after, rfl⟩ := List.exists_cons_of_ne_nil hne
    obtain ⟨xs, ys, rfl, rfl⟩ := (mem_boundaries_iff hcut).mp hstart
    rw [← hcut.flatMap_append, LexError.at_byteLength]
    exact hcut.items_from rfl (by simp)
  · rw [yielded_of_cuts hcut] at ht
    obtain ⟨xs, l, ys, rfl, rfl⟩ := exists_of_mem_place ht
    have hsingle : xs ++ l :: ys = xs ++ ([l] ++ ys) := rfl
    rw [hsingle] at hcut
    obtain ⟨-, -, hself⟩ := hcut.between
    have htext : (String.ofList l.text).toList = [l].flatMap (·.text) := by simp
    rw [Lexeme.lexeme_at, tokenize_of_cuts_nil (by rw [htext]; exact hself)]
    rfl

/-- A string with a character of two bytes, a number before a point, and a character that no
rule recognises; the last piece ends with an open string. -/
theorem scan_local_multibyte :
    let options : ScanOptions := ⟨.firstMatch, true, 40⟩
    let source := "x!=\"é\"1.#"
    (∃ (piece : String) (tokens : List Token),
      piece.toUTF8 = source.toUTF8.extract 2 7 ∧
      tokenize options piece = .ok (tokens ++ endMarker true piece) ∧
      tokens.map (Token.shift 2) = [⟨2, "=", .equal⟩, ⟨3, "\"é\"", .string⟩]) ∧
    (∃ (piece : String) (tokens : List Token) (e : LexError),
      piece.toUTF8 = source.toUTF8.extract 7 source.utf8ByteSize ∧
      items options piece = tokens.map .token ++ [.failure e] ∧
      tokens.map (Token.shift 7) = [⟨7, "1", .number⟩, ⟨8, ".", .dot⟩] ∧
      9 = 7 + e.offset ∧ e.found = '#') ∧
    tokenize options "\"é" = .ok (⟨0, "\"é", .string⟩ :: endMarker true "\"é") := by
  intro options source
  have hboundaries : boundaries options source = [0, 1, 2, 3, 7, 8, 9] := by decide +kernel
  have hbetween : yieldedBetween options source 2 7 =
      [⟨2, "=", .equal⟩, ⟨3, "\"é\"", .string⟩] := by decide +kernel
  have hfrom : yieldedBetween options source 7 9 = [⟨7, "1", .number⟩, ⟨8, ".", .dot⟩] := by
    decide +kernel
  have hopen : (⟨0, "\"é", .string⟩ : Token) ∈ yielded options "\"é" := by decide +kernel
  have hitems : items options source =
      (yielded options source).map .token ++ [.failure ⟨9, "x!=\"é\"1.", '#'⟩] := by decide +kernel
  have herror : tokenize options source = .error ⟨9, "x!=\"é\"1.", '#'⟩ := by
    rw [tokenize, hitems, collect_map_token]
    rfl
  obtain ⟨hpieces, hfailure, -⟩ := scan_local options source
  have h₁ := hpieces 2 (by simp [hboundaries]) 7 (by simp [hboundaries]) (by decide)
  have h₂ := hfailure _ herror 7 (by simp [hboundaries])
  rw [hbetween] at h₁
  rw [hfrom] at h₂
  exact ⟨h₁, h₂, (scan_local options "\"é").2.2 _ hopen⟩

end PoxTokens
