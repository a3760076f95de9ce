import Mathlib.Order.Bounds.Basic
import PoxTokens.LexError
import PoxTokens.Proofs.Utf8

/-!
# PoxTokens.Proofs.Boundary

Byte offsets between characters.  A boundary is an offset at which a character
starts or the text ends, as the bytes there tell; a piece is a text between two
boundaries.  Both are splits of the characters (`isBoundary_iff`, `isPiece_iff`).

A report on an offset names the greatest boundary up to it, the one that a search
backwards meets first, with the characters before and after that boundary; and
nothing else does (`LexError.at_eq_iff`).
-/

namespace PoxTokens

/-- The text between two byte offsets of a source, neither of which lies inside a character. -/
structure IsPiece (source : String) (start stop : Nat) (piece : String) : Prop where
  isBoundary_start : IsBoundary source start
  isBoundary_stop : IsBoundary source stop
  start_le_stop : start ≤ stop
  stop_le : stop ≤ source.utf8ByteSize
  toUTF8_eq : piece.toUTF8 = source.toUTF8.extract start stop

section
variable {source : String} {start stop offset : Nat}

/-! ## Splits of the characters -/

/-- A boundary lies between two parts of the source. -/
theorem isBoundary_iff :
    IsBoundary source offset ↔
      ∃ before after, source.toList = before ++ after ∧ byteLength before = offset := by
  rw [IsBoundary, String.Pos.Raw.isValid_iff_exists_append]
  constructor
  · intro h
    obtain ⟨before, after, heq, hoffset⟩ := h
    refine ⟨before.toList, after.toList, by rw [heq, String.toList_append], ?_⟩
    rw [byteLength_toList]
    exact (congrArg String.Pos.Raw.byteIdx hoffset).symm
  · intro h
    obtain ⟨before, after, heq, hoffset⟩ := h
    refine ⟨String.ofList before, String.ofList after, ?_, ?_⟩
    · rw [← String.ofList_append, ← heq, String.ofList_toList]
    · rw [← hoffset, ← utf8ByteSize_ofList]
      rfl

/-- Wherever a text can be split there is a boundary. -/
theorem isBoundary_of_splitAtByte? {before after : List Char}
    (h : splitAtByte? offset source.toList = some (before, after)) : IsBoundary source offset :=
  isBoundary_iff.mpr ⟨before, after, splitAtByte?_eq_some_iff.mp h⟩

/-- No boundary lies behind the end of the source. -/
theorem IsBoundary.le (h : IsBoundary source offset) : offset ≤ source.utf8ByteSize := by
  obtain ⟨before, after, heq, hoffset⟩ := isBoundary_iff.mp h
  rw [← byteLength_toList, heq, byteLength_append]
  omega

theorem isBoundary_zero (source : String) : IsBoundary source 0 :=
  isBoundary_iff.mpr ⟨[], source.toList, rfl, rfl⟩

/-- Of two beginnings of a text the one with fewer bytes begins the other. -/
theorem isPrefix_of_byteLength_le {s u v : List Char} (hu : u <+: s) (hv : v <+: s)
    (h : byteLength u ≤ byteLength v) : u <+: v := by
  rcases List.prefix_or_prefix_of_prefix hu hv with huv | hvu
  · exact huv
  · obtain ⟨rest, rfl⟩ := hvu
    rw [byteLength_append] at h
    have hrest : rest = [] := byteLength_eq_zero_iff.mp (by omega)
    simp [hrest]

/-- A place splits a text in one way only. -/
theorem append_inj_of_byteLength {before after before' after' : List Char}
    (h : before ++ after = before' ++ after') (hlength : byteLength before = byteLength before') :
    before = before' ∧ after = after' := by
  have hpre : before <+: before' := isPrefix_of_byteLength_le (List.prefix_append _ after)
    (h ▸ List.prefix_append _ after') (Nat.le_of_eq hlength)
  obtain ⟨rest, rfl⟩ := hpre
  rw [byteLength_append] at hlength
  have hrest : rest = [] := byteLength_eq_zero_iff.mp (by omega)
  rw [hrest, List.append_nil] at h ⊢
  exact ⟨rfl, List.append_cancel_left h⟩

/-- A piece lies between the two parts of the source in front of it and behind it. -/
theorem isPiece_iff {piece : String} :
    IsPiece source start stop piece ↔
      ∃ before after, source.toList = before ++ (piece.toList ++ after) ∧
        byteLength before = start ∧ start + byteLength piece.toList = stop := by
  constructor
  · intro h
    obtain ⟨before, rest, heq, hstart⟩ := isBoundary_iff.mp h.isBoundary_start
    obtain ⟨upto, after, heq', hstop⟩ := isBoundary_iff.mp h.isBoundary_stop
    have hpre : before <+: upto := isPrefix_of_byteLength_le (heq ▸ List.prefix_append _ _)
      (heq' ▸ List.prefix_append _ _) (by rw [hstart, hstop]; exact h.start_le_stop)
    obtain ⟨mid, rfl⟩ := hpre
    rw [byteLength_append, hstart] at hstop
    rw [List.append_assoc] at heq'
    -- the characters between the two places have the bytes of the piece
    have hmid : piece = String.ofList mid := by
      refine String.toByteArray_inj.mp ?_
      have hbytes := toUTF8_ofList_eq_extract heq'
      rw [hstart, hstop, ← h.toUTF8_eq] at hbytes
      exact hbytes.symm
    rw [hmid, String.toList_ofList]
    exact ⟨before, after, heq', hstart, hstop⟩
  · intro h
    obtain ⟨before, after, heq, hstart, hstop⟩ := h
    have hsize : stop + byteLength after = source.utf8ByteSize := by
      rw [← byteLength_toList, heq, byteLength_append, byteLength_append]
      omega
    have hbytes := toUTF8_ofList_eq_extract heq
    rw [String.ofList_toList, hstart, hstop] at hbytes
    refine ⟨isBoundary_iff.mpr ⟨before, _, heq, hstart⟩, isBoundary_iff.mpr ?_, by omega, by omega,
      hbytes⟩
    refine ⟨before ++ piece.toList, after, by rw [heq, List.append_assoc], ?_⟩
    rw [byteLength_append, hstart, hstop]

/-! ### Around one place -/

section
variable {before after : List Char} {piece : String}

/-- The piece in front of a boundary is all that stands there. -/
theorem isPiece_before_iff (h : source.toList = before ++ after) :
    IsPiece source 0 (byteLength before) piece ↔ piece.toList = before := by
  rw [isPiece_iff]
  constructor
  · rintro ⟨front, rest, heq, hfront, hlength⟩
    rw [byteLength_eq_zero_iff] at hfront
    rw [hfront, h, List.nil_append] at heq
    exact (append_inj_of_byteLength heq (by omega)).1.symm
  · rintro rfl
    exact ⟨[], after, h, rfl, Nat.zero_add _⟩

theorem isPiece_after_iff (h : source.toList = before ++ after) :
    IsPiece source (byteLength before) source.utf8ByteSize piece ↔ piece.toList = after := by
  have hsize : source.utf8ByteSize = byteLength before + byteLength after := by
    rw [← byteLength_toList, h, byteLength_append]
  rw [isPiece_iff, hsize]
  constructor
  · rintro ⟨front, rest, heq, hfront, hlength⟩
    rw [h] at heq
    obtain ⟨-, rfl⟩ := append_inj_of_byteLength heq hfront.symm
    rw [byteLength_append] at hlength
    have hrest : rest = [] := byteLength_eq_zero_iff.mp (by omega)
    rw [hrest, List.append_nil]
  · rintro rfl
    exact ⟨before, [], by rw [h, List.append_nil], rfl, rfl⟩

/-- The pieces that end at a boundary are the ends of the text in front of it. -/
theorem exists_isPiece_iff_isSuffix (h : source.toList = before ++ after) :
    (∃ start, IsPiece source start (byteLength before) piece) ↔ piece.toList <:+ before := by
  constructor
  · rintro ⟨start, hpiece⟩
    obtain ⟨front, rest, heq, hfront, hlength⟩ := isPiece_iff.mp hpiece
    rw [h, ← List.append_assoc] at heq
    have hstop : byteLength before = byteLength (front ++ piece.toList) := by
      rw [byteLength_append]
      omega
    exact ⟨front, (append_inj_of_byteLength heq hstop).1.symm⟩
  · rintro ⟨front, rfl⟩
    refine ⟨byteLength front, isPiece_iff.mpr ⟨front, after, ?_, rfl, ?_⟩⟩
    · rw [h, List.append_assoc]
    · rw [byteLength_append]

end

/-! ## The greatest boundary up to an offset -/

/-- The search backwards meets the greatest boundary first. -/
theorem stepBack?_eq_some_iff {place : Nat} :
    stepBack? source offset = some place ↔
      IsGreatest {p | IsBoundary source p ∧ p ≤ offset} place := by
  have hhere : ∀ {offset}, IsBoundary source offset →
      IsGreatest {p | IsBoundary source p ∧ p ≤ offset} offset :=
    fun h => ⟨⟨h, Nat.le_refl _⟩, fun p hp => hp.2⟩
  induction offset with
  | zero =>
      have hzero := isBoundary_zero source
      rw [stepBack?, if_pos hzero, Option.some.injEq]
      exact ⟨fun h => h ▸ hhere hzero, (hhere hzero).unique⟩
  | succ offset ih =>
      rw [stepBack?]
      split
      · next h =>
        rw [Option.some.injEq]
        exact ⟨fun heq => heq ▸ hhere h, (hhere h).unique⟩
      · next h =>
        -- the offset is no boundary, so one up to it is one before it
        have hset : {p | IsBoundary source p ∧ p ≤ offset + 1} =
            {p | IsBoundary source p ∧ p ≤ offset} := by
          ext p
          constructor
          · intro hp
            refine ⟨hp.1, Nat.le_of_lt_succ (Nat.lt_of_le_of_ne hp.2 fun heq => ?_)⟩
            exact h (heq ▸ hp.1)
          · intro hp
            exact ⟨hp.1, Nat.le_succ_of_le hp.2⟩
        rw [hset]
        exact ih

/-- The search backwards ends at a boundary, since 0 is one. -/
theorem exists_stepBack?_eq_some (source : String) (offset : Nat) :
    ∃ place, stepBack? source offset = some place := by
  induction offset with
  | zero => exact ⟨0, by rw [stepBack?, if_pos (isBoundary_zero source)]⟩
  | succ offset ih =>
      by_cases h : IsBoundary source (offset + 1)
      · exact ⟨offset + 1, by rw [stepBack?, if_pos h]⟩
      · rw [stepBack?, if_neg h]
        exact ih

/-- A search that starts at a boundary ends there. -/
theorem stepBack?_of_isBoundary (h : IsBoundary source offset) :
    stepBack? source offset = some offset := by
  rw [stepBack?.eq_def, if_pos h]

/-! ## Characters counted from the end -/

/-- The characters in their order, each with the bytes before it. -/
theorem getElem?_charOffsets (start : Nat) (cs : List Char) (i : Nat) :
    (charOffsets start cs)[i]? = cs[i]?.map fun c => (start + byteLength (cs.take i), c) := by
  induction cs generalizing start i with
  | nil => rfl
  | cons c cs ih =>
      cases i with
      | zero => rfl
      | succ i =>
          rw [charOffsets, List.getElem?_cons_succ, ih]
          simp [Nat.add_assoc]

/-- There are as many offsets as characters. -/
theorem length_charOffsets (start : Nat) (cs : List Char) :
    (charOffsets start cs).length = cs.length := by
  induction cs generalizing start with
  | nil => rfl
  | cons c cs ih => simp [charOffsets, ih]

namespace LexError

/-- The last characters of a text, at most `width` of them. -/
def lastChars (width : Nat) (cs : List Char) : List Char := cs.drop (cs.length - width)

/-- Counted from the end, the last characters start behind all the others. -/
theorem contextStart_eq (width : Nat) (before : List Char) :
    contextStart width before = byteLength (before.take (before.length - width)) := by
  by_cases hzero : width = 0
  · simp [contextStart, hzero]
  rw [contextStart, if_neg hzero]
  by_cases hshort : before.length < width
  · -- the count runs past the first character, and the whole text is kept
    have hnone : (charOffsets 0 before).reverse[width - 1]? = none := by
      rw [List.getElem?_eq_none_iff, List.length_reverse, length_charOffsets]
      omega
    rw [hnone, Nat.sub_eq_zero_of_le (Nat.le_of_lt hshort)]
    rfl
  · have hindex : width - 1 < (charOffsets 0 before).length := by
      rw [length_charOffsets]
      omega
    have hplace : (charOffsets 0 before).length - 1 - (width - 1) = before.length - width := by
      rw [length_charOffsets]
      omega
    have hchar : before.length - width < before.length := by omega
    rw [List.getElem?_reverse hindex, hplace, getElem?_charOffsets, List.getElem?_eq_getElem hchar]
    simp

/-- So the context that is cut off there is whole characters, the last ones. -/
theorem splitAtByte?_contextStart (width : Nat) (before : List Char) :
    splitAtByte? (contextStart width before) before =
      some (before.take (before.length - width), lastChars width before) := by
  rw [splitAtByte?_eq_some_iff, contextStart_eq, lastChars, List.take_append_drop]
  exact ⟨rfl, rfl⟩

end LexError

/-! ## Reports -/

/-- What a report on a byte offset says. -/
structure LexError.Locates (source : String) (offset width : Nat) (e : LexError) : Prop where
  /-- It names the greatest boundary up to the offset, or up to the end. -/
  isGreatest_offset :
    IsGreatest {p | IsBoundary source p ∧ p ≤ min offset source.utf8ByteSize} e.offset
  /-- The context is the end of what stands before the boundary, as long as the width allows. -/
  exists_context : ∃ before start, IsPiece source 0 e.offset before ∧
    IsPiece source start e.offset e.context ∧ e.context.length = min width before.length
  /-- The character found is the first of what stands behind the boundary. -/
  exists_found : ∃ after, IsPiece source e.offset source.utf8ByteSize after ∧
    (∀ c ∈ after.toList.head?, e.found = c) ∧
    (e.found = '\x00' ↔ e.offset = source.utf8ByteSize ∨ after.toList.head? = some '\x00')

/-- The last characters are the end of a text that is as long as the width allows. -/
theorem LexError.lastChars_eq_iff {width : Nat} {cs ds : List Char} :
    lastChars width cs = ds ↔ ds <:+ cs ∧ ds.length = min width cs.length := by
  have hlength : (lastChars width cs).length = min width cs.length := by
    rw [lastChars, List.length_drop]
    omega
  have hsuffix : lastChars width cs <:+ cs := List.drop_suffix _ _
  constructor
  · rintro rfl
    exact ⟨hsuffix, hlength⟩
  · rintro ⟨hds, hds_length⟩
    exact (List.suffix_of_suffix_length_le hsuffix hds (by omega)).eq_of_length (by omega)

/-- What a report says, in terms of the characters before and after the greatest boundary. -/
theorem LexError.locates_iff {width : Nat} {before after : List Char} {e : LexError}
    (happend : source.toList = before ++ after)
    (hgreatest : IsGreatest {p | IsBoundary source p ∧ p ≤ min offset source.utf8ByteSize}
      (byteLength before)) :
    e.Locates source offset width ↔
      e.offset = byteLength before ∧ lastChars width before = e.context.toList ∧
        e.found = after.head?.getD '\x00' := by
  have hend : byteLength before = source.utf8ByteSize ↔ after = [] := by
    rw [← byteLength_toList, happend, byteLength_append, ← byteLength_eq_zero_iff]
    omega
  constructor
  · rintro ⟨hoffset, ⟨front, start, hfront, hcontext, hlength⟩, rest, hrest, hfound, hnul⟩
    have heq : e.offset = byteLength before := hoffset.unique hgreatest
    rw [heq] at hfront hcontext hrest hnul
    rw [isPiece_before_iff happend] at hfront
    rw [isPiece_after_iff happend] at hrest
    rw [hrest] at hfound hnul
    refine ⟨heq, lastChars_eq_iff.mpr ⟨(exists_isPiece_iff_isSuffix happend).mp ⟨_, hcontext⟩, ?_⟩,
      ?_⟩
    · rw [← hfront, String.length_toList, String.length_toList, hlength]
    · cases after with
      | nil => exact hnul.mpr (.inl (hend.mpr rfl))
      | cons c after => exact hfound c rfl
  · rintro ⟨hoffset, hcontext, hfound⟩
    obtain ⟨hsuffix, hlength⟩ := lastChars_eq_iff.mp hcontext
    obtain ⟨start, hpiece⟩ := (exists_isPiece_iff_isSuffix happend).mpr hsuffix
    refine ⟨hoffset ▸ hgreatest, ⟨String.ofList before, start, ?_, hoffset ▸ hpiece, ?_⟩,
      String.ofList after, ?_, ?_, ?_⟩
    · rw [hoffset, isPiece_before_iff happend, String.toList_ofList]
    · rw [String.length_ofList, ← String.length_toList, hlength]
    · rw [hoffset, isPiece_after_iff happend, String.toList_ofList]
    · intro c hc
      rw [String.toList_ofList, Option.mem_def] at hc
      rw [hfound, hc, Option.getD_some]
    · rw [hfound, hoffset, hend, String.toList_ofList]
      cases after with
      | nil => simp
      | cons c after => simp

/-- The report on a boundary names it, with the characters before and behind it. -/
theorem LexError.at_append (before after : List Char) (width : Nat) :
    LexError.at (before ++ after) (byteLength before) width =
      { offset := byteLength before
        context := String.ofList (lastChars width before)
        found := after.head?.getD '\x00' } := by
  have hboundary : IsBoundary (String.ofList (before ++ after)) (byteLength before) :=
    isBoundary_iff.mpr ⟨before, after, String.toList_ofList, rfl⟩
  have hclamp : min (byteLength before) (byteLength (before ++ after)) = byteLength before := by
    rw [byteLength_append]
    omega
  have hsplit : splitAtByte? (byteLength before) (before ++ after) = some (before, after) :=
    splitAtByte?_eq_some_iff.mpr ⟨rfl, rfl⟩
  rw [LexError.at, hclamp, stepBack?_of_isBoundary hboundary, Option.getD_some, hsplit]
  simp [splitAtByte?_contextStart]

/-- The report on an offset is the one on the boundary that the search backwards finds. -/
theorem LexError.at_of_stepBack? {place : Nat} (width : Nat)
    (h : stepBack? source (min offset source.utf8ByteSize) = some place) :
    LexError.at source.toList offset width = LexError.at source.toList place width := by
  have hgreatest := stepBack?_eq_some_iff.mp h
  have hclamp : min place source.utf8ByteSize = place := Nat.min_eq_left hgreatest.1.1.le
  have hstays := stepBack?_of_isBoundary hgreatest.1.1
  simp only [LexError.at, String.ofList_toList, byteLength_toList, h, hclamp, hstays]

/-- **Reports**: the report on an offset is the one that names the greatest boundary up to it,
the characters before that boundary, as many as asked for, and the character behind it. -/
theorem LexError.at_eq_iff (source : String) (offset width : Nat) (e : LexError) :
    LexError.at source.toList offset width = e ↔ e.Locates source offset width := by
  obtain ⟨place, hplace⟩ := exists_stepBack?_eq_some source (min offset source.utf8ByteSize)
  have hgreatest := stepBack?_eq_some_iff.mp hplace
  obtain ⟨before, after, happend, rfl⟩ := isBoundary_iff.mp hgreatest.1.1
  rw [at_of_stepBack? width hplace, locates_iff happend hgreatest, happend, at_append]
  obtain ⟨place, context, found⟩ := e
  rw [LexError.mk.injEq, ← String.toList_inj, String.toList_ofList, eq_comm (a := place),
    eq_comm (a := found)]

/-- Inside the second character, which takes the bytes 1 and 2. -/
example : LexError.at "aé@".toList 2 40 = ⟨1, "a", 'é'⟩ := by decide +kernel

end

end PoxTokens
