import Mathlib.Data.List.Forall2
import PoxTokens.Proofs.Walk

/-!
# PoxTokens.Proofs.CursorSplit

A cursor splits the bytes behind its start.  Whatever is asked of it, it answers as a reader who
holds two lists, the bytes passed and the bytes left, and never leaves the bytes between its start
and the end of the text (`cursor_splits_bytes`).

The simulation is by one relation, which says where the cursor stands for a split
(`Cursor.Splits`).  Every operation passes a number of the bytes left, or none, so a lemma on
passing (`Cursor.Splits.forward`) does for all of them; one request keeps the relation, and so a
list of requests does.
-/

namespace PoxTokens

/-! ## Callers -/

/-- What a caller may ask of a cursor: an operation of a script, or to pass bytes as long as the
caller itself says yes to each.  The caller may have a memory, which outlives the request. -/
inductive CursorRequest (σ : Type) where
  | perform (op : CursorOp)
  | eatWhile (ask : σ → UInt8 → Bool × σ)

/-- A caller at work: its memory, the cursor in use, or what stands for one, and a saved one. -/
structure CursorState (σ τ : Type) where
  memory : σ
  current : τ
  saved : τ

/-- Makes requests in order of what serves them: each answer, and the state after it. -/
def CursorRequest.trace {σ τ : Type}
    (serve : CursorState σ τ → CursorRequest σ → CursorAnswer × CursorState σ τ)
    (st : CursorState σ τ) : List (CursorRequest σ) → List (CursorAnswer × CursorState σ τ)
  | [] => []
  | request :: requests => serve st request :: trace serve (serve st request).2 requests

/-- The caller says yes to each of some bytes, asked about them in order. -/
def SaysYes {σ : Type} (ask : σ → UInt8 → Bool × σ) : σ → List UInt8 → Prop
  | _, [] => True
  | memory, b :: u => (ask memory b).1 = true ∧ SaysYes ask (ask memory b).2 u

/-- The memory of a caller who was asked about some bytes in order. -/
def memoryAfter {σ : Type} (ask : σ → UInt8 → Bool × σ) (memory : σ) (asked : List UInt8) : σ :=
  asked.foldl (fun memory b => (ask memory b).2) memory

section
variable {σ : Type} (ask : σ → UInt8 → Bool × σ) (memory : σ) (w : List UInt8)

/-- The run of yes takes the longest prefix to which the predicate, with its memory, says yes
throughout. -/
theorem isLongestPrefix_yesRun :
    IsLongestPrefix {u | SaysYes ask memory u} w (yesRun ask memory w).1 := by
  induction w generalizing memory with
  | nil => exact ⟨trivial, List.nil_prefix, fun v _ hpre => hpre.length_le⟩
  | cons b w ih =>
      cases hask : ask memory b with
      | mk answer memory' =>
          cases answer with
          | false =>
              rw [yesRun_cons_of_no hask]
              refine ⟨trivial, List.nil_prefix, fun v hv hpre => ?_⟩
              cases v with
              | nil => exact Nat.le_refl 0
              | cons d v =>
                  obtain ⟨rfl, -⟩ := List.cons_prefix_cons.mp hpre
                  have hyes : (ask memory d).1 = true := hv.1
                  rw [hask] at hyes
                  contradiction
          | true =>
              obtain ⟨hmem, hprefix, hlength⟩ := ih memory'
              have hnext : (ask memory b).2 = memory' := by rw [hask]
              rw [yesRun_cons_of_yes hask]
              refine ⟨⟨by rw [hask], hnext ▸ hmem⟩, List.cons_prefix_cons.mpr ⟨rfl, hprefix⟩,
                fun v hv hpre => ?_⟩
              cases v with
              | nil => exact Nat.zero_le _
              | cons d v =>
                  obtain ⟨rfl, htail⟩ := List.cons_prefix_cons.mp hpre
                  exact Nat.succ_le_succ (hlength v (hnext ▸ hv.2) htail)

/-- The caller is asked about the bytes that are passed and about one more, if there is one. -/
theorem memory_yesRun :
    (yesRun ask memory w).2 =
      memoryAfter ask memory (w.take ((yesRun ask memory w).1.length + 1)) := by
  induction w generalizing memory with
  | nil => rfl
  | cons b w ih =>
      cases hask : ask memory b with
      | mk answer memory' =>
          cases answer with
          | false =>
              rw [yesRun_cons_of_no hask, memoryAfter]
              simp [hask]
          | true =>
              rw [yesRun_cons_of_yes hask, List.length_cons, List.take_succ_cons, memoryAfter,
                List.foldl_cons, hask]
              exact ih memory'

end

/-! ## Two lists of bytes -/

/-- The bytes passed since the start and the bytes that are left. -/
structure ByteSplit where
  passed : List UInt8
  left : List UInt8

namespace ByteSplit

/-- No byte is passed yet of those behind an offset; past the end there are none. -/
def startingAt (source : String) (offset : Nat) : ByteSplit :=
  ⟨[], (bytesOf source).drop offset⟩

/-- Passes a number of bytes, or all if there are fewer. -/
def pass (s : ByteSplit) (count : Nat) : ByteSplit :=
  ⟨s.passed ++ s.left.take count, s.left.drop count⟩

/-- Performs one operation: the answer, and the split and the saved one after it. -/
def step (s saved : ByteSplit) : CursorOp → CursorAnswer × ByteSplit × ByteSplit
  | .current => (CursorOp.byteAnswer s.left.head?, s, saved)
  | .peek ahead => (CursorOp.byteAnswer s.left[ahead]?, s, saved)
  | .startsWith text => (.truth ((bytesOf text).isPrefixOf s.left), s, saved)
  | .advance => (.nothing, s.pass 1, saved)
  | .advanceBy count => (.nothing, s.pass count, saved)
  | .matchByte expected =>
    if s.left.head? = some expected then (.truth true, s.pass 1, saved)
    else (.truth false, s, saved)
  | .eatUntil needle =>
    let run := s.left.takeWhile (· != needle)
    (.count run.length, s.pass run.length, saved)
  | .eatWhile test =>
    let run := (yesRun test.ask 0 s.left).1
    (.count run.length, s.pass run.length, saved)
  | .save => (.nothing, s, s)
  | .restore => (.nothing, saved, saved)

/-- Serves one request. -/
def serve {σ : Type} (st : CursorState σ ByteSplit) :
    CursorRequest σ → CursorAnswer × CursorState σ ByteSplit
  | .perform op =>
    let (answer, current, saved) := step st.current st.saved op
    (answer, { st with current, saved })
  | .eatWhile ask =>
    let (run, memory) := yesRun ask st.memory st.current.left
    (.count run.length, { st with memory, current := st.current.pass run.length })

/-- What is seen after a request: the answer, where the split stands if it began at an offset,
and the memory of the caller. -/
def shown {σ : Type} (start : Nat) (p : CursorAnswer × CursorState σ ByteSplit) : CursorStep × σ :=
  let s := p.2.current
  (⟨p.1, start + s.passed.length, s.passed.length, s.left.isEmpty⟩, p.2.memory)

end ByteSplit

/-! ## Cursors -/

namespace Cursor

/-- Serves one request. -/
def serve {σ : Type} (st : CursorState σ Cursor) :
    CursorRequest σ → CursorAnswer × CursorState σ Cursor
  | .perform op =>
    let (answer, current, saved) := CursorOp.step st.current st.saved op
    (answer, { st with current, saved })
  | .eatWhile ask =>
    let (memory, current) := st.current.eatWhile ask st.memory
    (.count (current.position - st.current.position), { st with memory, current })

/-- What is seen after a request. -/
def shown {σ : Type} (p : CursorAnswer × CursorState σ Cursor) : CursorStep × σ :=
  let c := p.2.current
  (⟨p.1, c.position, c.consumed, c.isAtEnd⟩, p.2.memory)

/-- A cursor that was put at an offset of a source stands for a split of the bytes there. -/
structure Splits (source : String) (offset : Nat) (c : Cursor) (s : ByteSplit) : Prop where
  bytes_eq : c.bytes = source.toUTF8.data
  start_eq : c.start = min offset source.utf8ByteSize
  position_eq : c.position = c.start + s.passed.length
  append_eq : s.passed ++ s.left = (bytesOf source).drop offset

section
variable {source : String} {offset n : Nat} {c : Cursor} {s : ByteSplit}

theorem splits_startingAt (source : String) (offset : Nat) :
    Splits source offset (startingAt source offset) (ByteSplit.startingAt source offset) where
  bytes_eq := rfl
  start_eq := rfl
  position_eq := rfl
  append_eq := rfl

/-- The bytes that are left are those ahead of the cursor. -/
theorem Splits.ahead_eq (h : Splits source offset c s) : c.ahead = s.left := by
  have hstart : (bytesOf source).drop c.start = s.passed ++ s.left := by
    rw [h.start_eq, h.append_eq, ← length_bytesOf]
    by_cases hoffset : offset ≤ (bytesOf source).length
    · rw [Nat.min_eq_left hoffset]
    · rw [Nat.min_eq_right (by omega), List.drop_length, List.drop_of_length_le (by omega)]
  have hbytes : c.bytes.toList = bytesOf source := by rw [h.bytes_eq, bytesOf]
  rw [ahead, hbytes, h.position_eq, ← List.drop_drop, hstart, List.drop_left]

/-- A cursor stays between its start and the end of the text. -/
theorem Splits.position_le (h : Splits source offset c s) : c.position ≤ source.utf8ByteSize := by
  have hlength := congrArg List.length h.append_eq
  rw [List.length_append, List.length_drop, length_bytesOf] at hlength
  rw [h.position_eq, h.start_eq]
  omega

theorem Splits.size_eq (h : Splits source offset c s) : c.bytes.size = source.utf8ByteSize := by
  rw [h.bytes_eq, ← length_bytesOf, bytesOf, Array.length_toList]

/-- The cursor never leaves its source. -/
theorem Splits.position_le_size (h : Splits source offset c s) : c.position ≤ c.bytes.size := by
  rw [h.size_eq]
  exact h.position_le

/-- What a cursor has consumed are the bytes that were passed. -/
theorem Splits.consumed_eq (h : Splits source offset c s) : c.consumed = s.passed.length := by
  rw [consumed, h.position_eq]
  omega

theorem Splits.isAtEnd_eq (h : Splits source offset c s) : c.isAtEnd = s.left.isEmpty := by
  have hlength := length_ahead c
  rw [h.ahead_eq] at hlength
  rw [isAtEnd, Bool.eq_iff_iff, List.isEmpty_iff, ← List.length_eq_zero_iff, decide_eq_true_iff]
  omega

/-- Bytes are passed on both sides. -/
theorem Splits.forward (h : Splits source offset c s) (hn : n ≤ s.left.length) :
    Splits source offset (c.forward n) (s.pass n) where
  bytes_eq := h.bytes_eq
  start_eq := h.start_eq
  position_eq := by
    rw [ByteSplit.pass, List.length_append, List.length_take_of_le hn, ← Nat.add_assoc]
    exact congrArg (· + n) h.position_eq
  append_eq := by
    rw [ByteSplit.pass, List.append_assoc, List.take_append_drop, h.append_eq]

/-- To pass too many bytes is to pass all. -/
theorem Splits.advanceBy (h : Splits source offset c s) (n : Nat) :
    Splits source offset (c.advanceBy n) (s.pass n) := by
  by_cases hn : n ≤ s.left.length
  · rw [advanceBy_eq h.position_le_size (by rw [h.ahead_eq]; exact hn)]
    exact h.forward hn
  · have hlength := length_ahead c
    rw [h.ahead_eq] at hlength
    have hall : s.pass n = s.pass s.left.length := by
      rw [ByteSplit.pass, ByteSplit.pass, List.take_of_length_le (by omega), List.take_length,
        List.drop_of_length_le (by omega), List.drop_length]
    have hend : c.advanceBy n = c.forward s.left.length := by
      have hposition := h.position_le_size
      rw [Cursor.advanceBy, Cursor.forward, Nat.min_eq_right (by omega), hlength,
        Nat.add_sub_cancel' hposition]
    rw [hall, hend]
    exact h.forward (Nat.le_refl _)

/-- Inside of the source a single step is a step by one. -/
theorem advance_eq_advanceBy (h : c.position ≤ c.bytes.size) : c.advance = c.advanceBy 1 := by
  by_cases hend : c.bytes.size ≤ c.position
  · have hposition : min (c.position + 1) c.bytes.size = c.position := by omega
    rw [advance, if_pos (by rw [isAtEnd]; exact decide_eq_true hend), Cursor.advanceBy, hposition]
  · rw [advance, if_neg (by rw [isAtEnd]; simpa using hend), Cursor.advanceBy,
      Nat.min_eq_left (by omega)]

theorem position_forward_sub (c : Cursor) (n : Nat) : (c.forward n).position - c.position = n :=
  Nat.add_sub_cancel_left _ _

end

/-! ### Requests -/

section
variable {source : String} {offset : Nat} {c slot : Cursor} {s saved : ByteSplit} {σ : Type}

/-- One operation answers the same on both sides, and keeps the cursor and the saved one at the
splits for which they stand. -/
theorem Splits.step (h : Splits source offset c s) (hsaved : Splits source offset slot saved)
    (op : CursorOp) :
    ∃ answer c' slot' s' saved', CursorOp.step c slot op = (answer, c', slot') ∧
      s.step saved op = (answer, s', saved') ∧
      Splits source offset c' s' ∧ Splits source offset slot' saved' := by
  cases op with
  | current => exact ⟨_, c, slot, s, saved, rfl, by rw [current?_eq, h.ahead_eq]; rfl, h, hsaved⟩
  | peek n => exact ⟨_, c, slot, s, saved, rfl, by rw [peek?_eq, h.ahead_eq]; rfl, h, hsaved⟩
  | startsWith text =>
      have hstarts : c.startsWith text = (bytesOf text).isPrefixOf s.left := by
        rw [← h.ahead_eq]
        rfl
      exact ⟨_, c, slot, s, saved, by rw [CursorOp.step, hstarts], rfl, h, hsaved⟩
  | advance =>
      refine ⟨_, c.advance, slot, s.pass 1, saved, rfl, rfl, ?_, hsaved⟩
      rw [advance_eq_advanceBy h.position_le_size]
      exact h.advanceBy 1
  | advanceBy n => exact ⟨_, _, slot, s.pass n, saved, rfl, rfl, h.advanceBy n, hsaved⟩
  | matchByte expected =>
      by_cases hhead : s.left.head? = some expected
      · refine ⟨.truth true, c.forward 1, slot, s.pass 1, saved, ?_, ?_, h.forward ?_, hsaved⟩
        · rw [CursorOp.step, matchByte_eq, h.ahead_eq, if_pos hhead]
        · rw [ByteSplit.step, if_pos hhead]
        · exact List.length_pos_iff.mpr fun hnil => by rw [hnil] at hhead; contradiction
      · refine ⟨.truth false, c, slot, s, saved, ?_, ?_, h, hsaved⟩
        · rw [CursorOp.step, matchByte_eq, h.ahead_eq, if_neg hhead]
        · rw [ByteSplit.step, if_neg hhead]
  | eatUntil needle =>
      refine ⟨_, _, slot, _, saved, ?_, rfl, h.forward (List.takeWhile_prefix _).length_le, hsaved⟩
      rw [CursorOp.step, eatUntil_eq, h.ahead_eq, position_forward_sub]
  | eatWhile test =>
      have hrun := isLongestPrefix_yesRun test.ask 0 s.left
      refine ⟨_, _, slot, _, saved, ?_, rfl, h.forward hrun.isPrefix.length_le, hsaved⟩
      rw [CursorOp.step, eatWhile_eq_yesRun, h.ahead_eq]
      dsimp only
      rw [position_forward_sub]
  | save => exact ⟨_, c, c, s, s, rfl, rfl, h, h⟩
  | restore => exact ⟨_, slot, slot, saved, saved, rfl, rfl, hsaved, hsaved⟩

/-- The cursors of a state stand for the splits of another, and the memories are the same. -/
structure Agrees (source : String) (offset : Nat) (st : CursorState σ Cursor)
    (sp : CursorState σ ByteSplit) : Prop where
  memory_eq : st.memory = sp.memory
  current : Splits source offset st.current sp.current
  saved : Splits source offset st.saved sp.saved

/-- **One request**: cursor and split give the same answer and go on agreeing, the saved ones,
too. -/
theorem Agrees.serve {st : CursorState σ Cursor} {sp : CursorState σ ByteSplit}
    (h : Agrees source offset st sp) (request : CursorRequest σ) :
    (Cursor.serve st request).1 = (ByteSplit.serve sp request).1 ∧
      Agrees source offset (Cursor.serve st request).2 (ByteSplit.serve sp request).2 := by
  cases request with
  | perform op =>
      obtain ⟨answer, c', slot', s', saved', hcursor, hsplit, hc, hs⟩ := h.current.step h.saved op
      rw [Cursor.serve, ByteSplit.serve, hcursor, hsplit]
      exact ⟨rfl, h.memory_eq, hc, hs⟩
  | eatWhile ask =>
      have hrun := isLongestPrefix_yesRun ask sp.memory sp.current.left
      rw [Cursor.serve, ByteSplit.serve, eatWhile_eq_yesRun, h.current.ahead_eq, h.memory_eq]
      dsimp only
      rw [position_forward_sub]
      exact ⟨rfl, rfl, h.current.forward hrun.isPrefix.length_le, h.saved⟩

/-- **The script**: they agree after every request, by induction over the requests. -/
theorem Agrees.trace {st : CursorState σ Cursor} {sp : CursorState σ ByteSplit}
    (h : Agrees source offset st sp) (requests : List (CursorRequest σ)) :
    List.Forall₂ (fun p q => p.1 = q.1 ∧ Agrees source offset p.2 q.2)
      (CursorRequest.trace Cursor.serve st requests)
      (CursorRequest.trace ByteSplit.serve sp requests) := by
  induction requests generalizing st sp with
  | nil => exact .nil
  | cons request requests ih => exact .cons (h.serve request) (ih (h.serve request).2)

/-- A cursor put at an offset of a source started there, or at the end if the offset is past it,
and has not left the bytes from there to the end. -/
def InBounds (source : String) (offset : Nat) (c : Cursor) : Prop :=
  c.start = min offset source.utf8ByteSize ∧ c.start ≤ c.position ∧
    c.position ≤ source.utf8ByteSize

/-- A cursor that stands for a split is inside of its source and not before its start. -/
theorem Splits.inBounds (h : Splits source offset c s) : c.InBounds source offset :=
  ⟨h.start_eq, Nat.le.intro h.position_eq.symm, h.position_le⟩

/-- What is seen of a cursor and of the split for which it stands is the same. -/
theorem Agrees.shown_eq {p : CursorAnswer × CursorState σ Cursor}
    {q : CursorAnswer × CursorState σ ByteSplit} (hanswer : p.1 = q.1)
    (h : Agrees source offset p.2 q.2) :
    Cursor.shown p = ByteSplit.shown (min offset source.utf8ByteSize) q := by
  have hposition := h.current.position_eq
  rw [h.current.start_eq] at hposition
  rw [Cursor.shown, ByteSplit.shown, hanswer, h.memory_eq, hposition, h.current.consumed_eq,
    h.current.isAtEnd_eq]

/-- So everything that is shown after each request can be read off the split. -/
theorem Agrees.map_shown {st : CursorState σ Cursor} {sp : CursorState σ ByteSplit}
    (h : Agrees source offset st sp) (requests : List (CursorRequest σ)) :
    (CursorRequest.trace Cursor.serve st requests).map Cursor.shown =
      (CursorRequest.trace ByteSplit.serve sp requests).map
        (ByteSplit.shown (min offset source.utf8ByteSize)) := by
  rw [← List.forall₂_eq_eq_eq, List.forall₂_map_left_iff, List.forall₂_map_right_iff]
  exact (h.trace requests).imp fun p q hpq => hpq.2.shown_eq hpq.1

/-- Throughout a script the cursor and the saved one stay in bounds. -/
theorem Agrees.inBounds_of_mem_trace {st : CursorState σ Cursor} {sp : CursorState σ ByteSplit}
    (h : Agrees source offset st sp) {requests : List (CursorRequest σ)}
    {p : CursorAnswer × CursorState σ Cursor}
    (hp : p ∈ CursorRequest.trace Cursor.serve st requests) :
    p.2.current.InBounds source offset ∧ p.2.saved.InBounds source offset := by
  have hbounds := (h.trace requests).imp fun p q hpq =>
    And.intro (And.intro hpq.2.current.inBounds hpq.2.saved.inBounds) hpq
  exact ((List.forall₂_and_left _ _).mp hbounds).1 p hp

/-- A script is a list of requests of a caller without a memory. -/
theorem runFrom_eq_trace (c slot : Cursor) (ops : List CursorOp) :
    CursorOp.runFrom c slot ops =
      (CursorRequest.trace Cursor.serve ⟨(), c, slot⟩ (ops.map .perform)).map
        fun p => (Cursor.shown p).1 := by
  induction ops generalizing c slot with
  | nil => rfl
  | cons op ops ih => exact congrArg (_ :: ·) (ih _ _)

end

end Cursor

/-- **Cursors**: whatever a caller asks of a cursor, step by step, the cursor answers as two
lists of bytes do, those passed since the start and those left, and it stays between its start
and the end of the source, as the saved one does.  So does a script.  A caller who is asked
about each byte passes the longest beginning to which it says yes, and is asked about the bytes
passed and about the one that stops it, if there is one. -/
theorem cursor_splits_bytes (source : String) (offset : Nat) :
    let start := min offset source.utf8ByteSize
    let cursor := Cursor.startingAt source offset
    let split := ByteSplit.startingAt source offset
    (cursor.InBounds source offset ∧ cursor.position = start) ∧
    (∀ {σ : Type} (memory : σ) (requests : List (CursorRequest σ)),
      let cursors := CursorRequest.trace Cursor.serve ⟨memory, cursor, cursor⟩ requests
      let splits := CursorRequest.trace ByteSplit.serve ⟨memory, split, split⟩ requests
      cursors.map Cursor.shown = splits.map (ByteSplit.shown start) ∧
      ∀ p ∈ cursors, p.2.current.InBounds source offset ∧ p.2.saved.InBounds source offset) ∧
    (∀ ops, CursorOp.run cursor ops =
      (CursorRequest.trace ByteSplit.serve ⟨(), split, split⟩ (ops.map .perform)).map
        fun p => (ByteSplit.shown start p).1) ∧
    ∀ {σ : Type} (ask : σ → UInt8 → Bool × σ) (memory : σ) (w : List UInt8),
      IsLongestPrefix {u | SaysYes ask memory u} w (yesRun ask memory w).1 ∧
        (yesRun ask memory w).2 =
          memoryAfter ask memory (w.take ((yesRun ask memory w).1.length + 1)) := by
  intro start cursor split
  have hfresh : Cursor.Splits source offset cursor split := Cursor.splits_startingAt source offset
  have hagrees : ∀ {σ : Type} (memory : σ), Cursor.Agrees source offset ⟨memory, cursor, cursor⟩
      ⟨memory, split, split⟩ := fun memory => ⟨rfl, hfresh, hfresh⟩
  refine ⟨⟨hfresh.inBounds, rfl⟩, fun memory requests => ?_, fun ops => ?_,
    fun ask memory w => ⟨isLongestPrefix_yesRun ask memory w, memory_yesRun ask memory w⟩⟩
  · exact ⟨(hagrees memory).map_shown requests,
      fun p hp => (hagrees memory).inBounds_of_mem_trace hp⟩
  · have hscript := congrArg (List.map Prod.fst) ((hagrees ()).map_shown (ops.map .perform))
    rw [List.map_map, List.map_map] at hscript
    rw [CursorOp.run, Cursor.runFrom_eq_trace]
    exact hscript

/-- A caller who notes what it is asked and stops behind two bytes, inside a character, and what
it asks from there on. -/
theorem cursor_splits_bytes_inside :
    let source := "12é\""
    let cursor := Cursor.startingAt source 1
    let ask := fun (asked : List UInt8) b => (decide (asked.length < 2), asked ++ [b])
    let requests := [.eatWhile ask, .perform .save, .perform (.eatUntil 0x22),
      .perform (.matchByte 0x22), .perform (.advanceBy 7), .perform .restore,
      .perform (.peek 0)]
    let cursors := CursorRequest.trace Cursor.serve ⟨[], cursor, cursor⟩ requests
    (cursors.map Cursor.shown = [
      (⟨.count 2, 3, 2, false⟩, [0x32, 0xc3, 0xa9]),
      (⟨.nothing, 3, 2, false⟩, [0x32, 0xc3, 0xa9]),
      (⟨.count 1, 4, 3, false⟩, [0x32, 0xc3, 0xa9]),
      (⟨.truth true, 5, 4, true⟩, [0x32, 0xc3, 0xa9]),
      (⟨.nothing, 5, 4, true⟩, [0x32, 0xc3, 0xa9]),
      (⟨.nothing, 3, 2, false⟩, [0x32, 0xc3, 0xa9]),
      (⟨.byte 0xa9, 3, 2, false⟩, [0x32, 0xc3, 0xa9])]) ∧
    ∀ p ∈ cursors, p.2.current.InBounds source 1 ∧ p.2.saved.InBounds source 1 := by
  intro source cursor ask requests cursors
  obtain ⟨-, hrequests, -⟩ := cursor_splits_bytes source 1
  obtain ⟨hshown, hbounds⟩ := hrequests [] requests
  exact ⟨hshown.trans (by decide +kernel), hbounds⟩

end PoxTokens
