import PoxTokens.Proofs.Acceptance
import PoxTokens.Proofs.Tiling
import PoxTokens.TokenStream

/-!
# PoxTokens.Proofs.StreamIndex

A stream is an index into the results of its scan.  Whatever operations are performed on it,
it answers as a reader who holds the list of results, the number of results taken and a
bookmark (`indexed_items`).

The simulation is by one relation: a stream stands at an index if what it still yields is the
list from there on, and its position is the number of bytes before (`TokenStream.StandsAt`).
One operation keeps it (`StandsAt.step`), so a script does.
-/

namespace PoxTokens

/-! ## A reader of a list of results -/

/-- The bytes that a result takes from the source. -/
def Item.length : Item → Nat
  | .token t => t.length
  | .failure _ => 0

/-- The bytes that some results take from the source. -/
def Item.lengths : List Item → Nat
  | [] => 0
  | item :: results => item.length + lengths results

@[simp] theorem Item.lengths_nil : lengths [] = 0 := rfl

@[simp] theorem Item.lengths_cons (item : Item) (results : List Item) :
    lengths (item :: results) = item.length + lengths results := rfl

@[simp] theorem Item.lengths_append (results others : List Item) :
    lengths (results ++ others) = lengths results + lengths others := by
  induction results with
  | nil => simp
  | cons item results ih => simp [ih, Nat.add_assoc]

/-- How many results have been taken, and how many had been where the bookmark is. -/
structure ListReader where
  index : Nat
  bookmark : Nat

namespace ListReader

/-- Performs one operation: the answer, the results taken, and the reader after it. -/
def step (results : List Item) (r : ListReader) :
    StreamOp → StreamAnswer × List Item × ListReader
  | .next =>
    match results[r.index]? with
    | none => (.nothing, [], r)
    | some item => (.item item, [item], { r with index := r.index + 1 })
  | .rest =>
    let others := results.drop r.index
    (.items others, others, { r with index := results.length })
  | .count =>
    let others := results.drop r.index
    (.number others.length, others, { r with index := results.length })
  | .position => (.nothing, [], r)
  | .save => (.nothing, [], { r with bookmark := r.index })
  | .restore => (.nothing, [], { r with index := r.bookmark })

/-- Performs operations in order.  The position after each is the number of bytes that the
results before the index take. -/
def run (results : List Item) (r : ListReader) : List StreamOp → List StreamStep
  | [] => []
  | op :: ops =>
    let (answer, taken, r') := step results r op
    ⟨answer, Item.lengths (results.take r'.index), taken⟩ :: run results r' ops

end ListReader

/-! ## Taking results from a stream -/

namespace TokenStream

variable {st st' : TokenStream} {item : Item}

/-- A stream yields results until there is none: what holds when there is none, and holds of a
stream if it holds behind the next result, holds of every stream. -/
@[elab_as_elim]
theorem results_induction {motive : TokenStream → Prop}
    (stop : ∀ st, st.next? = none → motive st)
    (next : ∀ st item st', st.next? = some (item, st') → motive st' → motive st)
    (st : TokenStream) : motive st :=
  match h : st.next? with
  | none => stop st h
  | some (item, st') => next st item st' h (results_induction stop next st')
termination_by st.remainingBound
decreasing_by exact remainingBound_lt h

/-- Without a next result nothing is left. -/
theorem drain_of_next?_eq_none (h : st.next? = none) : st.drain = ([], st) := by
  rw [drain, drainLogged]
  split
  · rfl
  · next heq => rw [h] at heq; contradiction

/-- The next result is the first of those that are left. -/
theorem drain_of_next?_eq_some (h : st.next? = some (item, st')) :
    st.drain = (item :: st'.drain.1, st'.drain.2) := by
  rw [drain, drainLogged]
  split
  · next heq => rw [h] at heq; contradiction
  · next item' st'' heq =>
      rw [h, Option.some.injEq, Prod.mk.injEq] at heq
      obtain ⟨rfl, rfl⟩ := heq
      rfl

/-- What a stream yields: the end marker at the end, a selected lexeme, or a report. -/
theorem next?_cases (h : st.next? = some (item, st')) :
    (st.rest = [] ∧ item = .token (eofToken st.source) ∧ st' = { st with ended := true }) ∨
    (∃ l, st.options.policy.select ruleTable st.rest = some l ∧
      item = .token (l.at st.position) ∧
      st' = { st with
        rest := st.rest.drop l.text.length
        position := st.position + byteLength l.text }) ∨
    (st.rest ≠ [] ∧ st.options.policy.select ruleTable st.rest = none ∧
      item = .failure (LexError.at st.source st.position st.options.contextWidth) ∧
      st' = { st with ended := true }) := by
  rw [next?_eq] at h
  split at h
  · contradiction
  · split at h
    · next hrest =>
      split at h
      · cases h
        exact .inl ⟨List.isEmpty_iff.mp hrest, rfl, rfl⟩
      · contradiction
    · next hrest =>
      split at h
      · next l hl =>
        cases h
        exact .inr (.inl ⟨l, hl, rfl, rfl⟩)
      · next hnone =>
        cases h
        exact .inr (.inr ⟨fun hnil => hrest (List.isEmpty_iff.mpr hnil), hnone, rfl, rfl⟩)

/-- A stream moves on by the bytes of what it yields. -/
theorem position_of_next? (h : st.next? = some (item, st')) :
    st'.position = st.position + item.length := by
  rcases next?_cases h with ⟨-, rfl, rfl⟩ | ⟨l, -, rfl, rfl⟩ | ⟨-, -, rfl, rfl⟩
  · rfl
  · rw [Item.length, Token.length, Lexeme.lexeme_at, utf8ByteSize_ofList]
  · rfl

/-- Behind its last result a stream has moved on by the bytes of all of them. -/
theorem position_drain (st : TokenStream) :
    st.drain.2.position = st.position + Item.lengths st.drain.1 := by
  induction st using results_induction with
  | stop st h =>
      rw [drain_of_next?_eq_none h]
      rfl
  | next st item st' h ih =>
      rw [drain_of_next?_eq_some h, ih, position_of_next? h, Item.lengths_cons, Nat.add_assoc]

/-- A stream that has yielded its last result yields no more. -/
theorem next?_drain (st : TokenStream) : st.drain.2.next? = none := by
  induction st using results_induction with
  | stop st h => rw [drain_of_next?_eq_none h, h]
  | next st item st' h ih => rw [drain_of_next?_eq_some h, ih]

/-! ### The exits -/

theorem next?_of_ended (h : st.ended = true) : st.next? = none := by
  rw [next?_eq, if_pos h]

/-- At the end of the source the stream yields the end marker, once, if it is asked for. -/
theorem next?_of_rest_eq_nil (hended : st.ended = false) (hrest : st.rest = []) :
    st.next? = if st.options.emitEof then
      some (.token (eofToken st.source), { st with ended := true }) else none := by
  simp [next?_eq, hended, hrest]

/-- A lexeme that is selected is yielded in its place, and the stream goes on behind it. -/
theorem next?_of_select_eq_some (hended : st.ended = false) {l : Lexeme}
    (h : st.options.policy.select ruleTable st.rest = some l) :
    st.next? = some (.token (l.at st.position),
      { st with
        rest := st.rest.drop l.text.length
        position := st.position + byteLength l.text }) := by
  have hrest : st.rest ≠ [] := by
    intro hnil
    rw [hnil, Policy.select_nil] at h
    contradiction
  simp [next?_eq, hended, hrest, h]

/-- Where nothing is selected the stream yields the failure and ends. -/
theorem next?_of_select_eq_none (hended : st.ended = false) (hrest : st.rest ≠ [])
    (h : st.options.policy.select ruleTable st.rest = none) :
    st.next? = some (.failure (LexError.at st.source st.position st.options.contextWidth),
      { st with ended := true }) := by
  simp [next?_eq, hended, hrest, h]

theorem drain_of_ended (h : st.ended = true) : st.drain.1 = [] := by
  rw [drain_of_next?_eq_none (next?_of_ended h)]

/-- A stream that has not ended yields the lexemes that its text is cut into, in their places,
and then what ends the scan. -/
theorem drain_of_cuts {policy : Policy} {s left : List Char} {ls : List Lexeme}
    (h : Cuts policy s ls left) (hpolicy : st.options.policy = policy) (hrest : st.rest = s)
    (hended : st.ended = false) :
    st.drain.1 = (place st.position ls).map .token ++
      if left.isEmpty then if st.options.emitEof then [.token (eofToken st.source)] else []
      else [.failure (LexError.at st.source (st.position + byteLength (ls.flatMap (·.text)))
        st.options.contextWidth)] := by
  induction h generalizing st with
  | @stop s hn =>
      subst hrest hpolicy
      by_cases hs : st.rest = []
      · have hnext := next?_of_rest_eq_nil hended hs
        cases hemit : st.options.emitEof with
        | false =>
            rw [hemit, if_neg Bool.false_ne_true] at hnext
            simp [drain_of_next?_eq_none hnext, hs, place]
        | true =>
            rw [hemit, if_pos rfl] at hnext
            rw [drain_of_next?_eq_some hnext, drain_of_ended rfl]
            simp [hs, place]
      · rw [drain_of_next?_eq_some (next?_of_select_eq_none hended hs hn), drain_of_ended rfl]
        simp [hs, place]
  | @step l rest left ls hselect _ ih =>
      subst hpolicy
      rw [← hrest] at hselect
      have hdrop : st.rest.drop l.text.length = rest := by rw [hrest, List.drop_left]
      rw [drain_of_next?_eq_some (next?_of_select_eq_some hended hselect), ih]
      · simp [place, Nat.add_assoc]
      · rfl
      · exact hdrop
      · exact hended

/-- A fresh stream yields the results of the scan. -/
theorem drain_start (options : ScanOptions) (source : String) :
    (start options source).drain.1 = items options source := by
  rw [drain_of_cuts (cuts_lexemes options.policy source.toList) rfl rfl rfl, items]
  simp only [start, Nat.zero_add]
  rfl

/-! ### The simulation -/

/-- A stream stands at an index of some results: it yields those from there on, and has moved
by the bytes of those before. -/
structure StandsAt (results : List Item) (index : Nat) (st : TokenStream) : Prop where
  drain_eq : st.drain.1 = results.drop index
  position_eq : st.position = Item.lengths (results.take index)

variable {results : List Item} {index : Nat}

/-- A fresh stream stands in front of the first item. -/
theorem standsAt_start (options : ScanOptions) (source : String) :
    StandsAt (items options source) 0 (start options source) where
  drain_eq := drain_start options source
  position_eq := rfl

/-- A stream that yields nothing has all items behind it. -/
theorem StandsAt.getElem?_eq_none (h : StandsAt results index st) (hnext : st.next? = none) :
    results[index]? = none := by
  have hdrain := h.drain_eq
  rw [drain_of_next?_eq_none hnext] at hdrain
  rw [← List.head?_drop, ← hdrain]
  rfl

/-- **One step**: the item at the index is yielded, and the index moves on. -/
theorem StandsAt.getElem?_eq_some (h : StandsAt results index st)
    (hnext : st.next? = some (item, st')) :
    results[index]? = some item ∧ StandsAt results (index + 1) st' := by
  have hdrain := h.drain_eq
  rw [drain_of_next?_eq_some hnext] at hdrain
  have hitem : results[index]? = some item := by
    rw [← List.head?_drop, ← hdrain]
    rfl
  refine ⟨hitem, ?_, ?_⟩
  · rw [← List.tail_drop, ← hdrain]
    rfl
  · rw [position_of_next? hnext, h.position_eq, List.take_add_one, hitem, Item.lengths_append]
    rfl

/-- Draining leads behind the last item. -/
theorem StandsAt.drain (h : StandsAt results index st) :
    StandsAt results results.length st.drain.2 where
  drain_eq := by
    rw [drain_of_next?_eq_none (next?_drain st), List.drop_length]
  position_eq := by
    rw [position_drain, h.drain_eq, h.position_eq, ← Item.lengths_append,
      List.take_append_drop, List.take_length]

/-- One operation answers as the reader of the results does, and keeps the stream at the
index of the reader and the saved stream at the bookmark. -/
theorem StandsAt.step {r : ListReader} {slot : TokenStream} (h : StandsAt results r.index st)
    (hslot : StandsAt results r.bookmark slot) (op : StreamOp) :
    ∃ answer taken r' st' slot', r.step results op = (answer, taken, r') ∧
      StreamOp.step st slot op =
        (⟨answer, Item.lengths (results.take r'.index), taken⟩, st', slot') ∧
      StandsAt results r'.index st' ∧ StandsAt results r'.bookmark slot' := by
  cases op with
  | next =>
      cases hnext : st.next? with
      | none =>
          refine ⟨.nothing, [], r, st, slot, ?_, ?_, h, hslot⟩
          · simp [ListReader.step, h.getElem?_eq_none hnext]
          · simp [StreamOp.step_eq, hnext, h.position_eq]
      | some p =>
          obtain ⟨item, st'⟩ := p
          obtain ⟨hitem, hst'⟩ := h.getElem?_eq_some hnext
          refine ⟨.item item, [item], { r with index := r.index + 1 }, st', slot, ?_, ?_, hst',
            hslot⟩
          · simp [ListReader.step, hitem]
          · simp [StreamOp.step_eq, hnext, hst'.position_eq]
  | rest =>
      refine ⟨_, _, _, st.drain.2, slot, rfl, ?_, h.drain, hslot⟩
      simp [StreamOp.step_eq, h.drain_eq, h.drain.position_eq]
  | count =>
      refine ⟨_, _, _, st.drain.2, slot, rfl, ?_, h.drain, hslot⟩
      simp [StreamOp.step_eq, h.drain_eq, h.drain.position_eq]
  | position =>
      refine ⟨_, _, _, st, slot, rfl, ?_, h, hslot⟩
      simp [StreamOp.step_eq, h.position_eq]
  | save =>
      refine ⟨_, _, _, st, st, rfl, ?_, h, h⟩
      simp [StreamOp.step_eq, h.position_eq]
  | restore =>
      refine ⟨_, _, _, slot, slot, rfl, ?_, hslot, hslot⟩
      simp [StreamOp.step_eq, hslot.position_eq]

/-- **The run**: every script sees the stream as an index into the list of its items. -/
theorem StandsAt.runFrom {r : ListReader} {slot : TokenStream} (h : StandsAt results r.index st)
    (hslot : StandsAt results r.bookmark slot) (ops : List StreamOp) :
    StreamOp.runFrom st slot ops = ListReader.run results r ops := by
  induction ops generalizing st slot r with
  | nil => rfl
  | cons op ops ih =>
      obtain ⟨answer, taken, r', st', slot', hreader, hstream, hst', hslot'⟩ := h.step hslot op
      rw [StreamOp.runFrom_cons, ListReader.run, hreader, hstream]
      simp only [ih hst' hslot']

end TokenStream

/-! ## The results of a scan -/

theorem collect_map_token_append_failure (tokens : List Token) (e : LexError) :
    Item.collect (tokens.map .token ++ [.failure e]) = .error e := by
  rw [collect_map_token]
  rfl

theorem lengths_map_token_place (position : Nat) (ls : List Lexeme) :
    Item.lengths ((place position ls).map .token) = byteLength (ls.flatMap (·.text)) := by
  induction ls generalizing position with
  | nil => rfl
  | cons l ls ih =>
      rw [place, List.map_cons, Item.lengths_cons, ih, List.flatMap_cons, byteLength_append,
        Item.length, Token.length, Lexeme.lexeme_at, utf8ByteSize_ofList]

/-- Tokens that have text are not more than the bytes that they take. -/
theorem length_place_le {ls : List Lexeme} (hne : ∀ l ∈ ls, l.text ≠ []) (position : Nat) :
    (place position ls).length ≤ byteLength (ls.flatMap (·.text)) := by
  induction ls generalizing position with
  | nil => exact Nat.zero_le _
  | cons l ls ih =>
      obtain ⟨hl, hls⟩ := List.forall_mem_cons.mp hne
      have hzero : byteLength l.text ≠ 0 := mt byteLength_eq_zero_iff.mp hl
      have htail := ih hls (position + byteLength l.text)
      rw [place, List.length_cons, List.flatMap_cons, byteLength_append]
      omega

/-- What a list of results is that a stream is an index into. -/
structure Indexed (options : ScanOptions) (source : String) (results : List Item) : Prop where
  run_eq : ∀ ops, StreamOp.run options source ops = ListReader.run results ⟨0, 0⟩ ops
  tokens_before : ∀ item ∈ results.dropLast, ∃ t, item = .token t ∧ t.kind ≠ .eof
  eof_only : ∀ t, .token t ∈ results → t.kind = .eof →
    options.emitEof = true ∧ ∀ e, .failure e ∉ results
  length_le : results.length ≤ source.utf8ByteSize + 1
  offset_eq : ∀ e, .failure e ∈ results → e.offset = Item.lengths results
  ok_iff : ∀ tokens, tokenize options source = .ok tokens ↔ results = tokens.map .token
  error_iff : ∀ e, tokenize options source = .error e ↔ .failure e ∈ results

section
variable {options : ScanOptions} {source : String} {tokens : List Token}

/-- In particular a script on a fresh stream sees its items from the first on. -/
theorem run_eq_items (options : ScanOptions) (source : String) (ops : List StreamOp) :
    StreamOp.run options source ops = ListReader.run (items options source) ⟨0, 0⟩ ops :=
  (TokenStream.standsAt_start options source).runFrom
    (TokenStream.standsAt_start options source) ops

/-- The items of a scan that succeeds are its tokens, with the end marker behind them if it is asked
for. -/
theorem indexed_of_complete (hkind : ∀ t ∈ tokens, t.kind ≠ .eof)
    (hlength : tokens.length ≤ source.utf8ByteSize)
    (hitems : items options source = (tokens ++ endMarker options.emitEof source).map .token) :
    Indexed options source (items options source) where
  run_eq := run_eq_items options source
  tokens_before item hitem := by
    have hdrop : (tokens ++ endMarker options.emitEof source).dropLast ⊆ tokens := by
      cases options.emitEof with
      | false => simpa [endMarker] using List.dropLast_subset tokens
      | true => simp [endMarker]
    rw [hitems, ← List.map_dropLast] at hitem
    obtain ⟨t, ht, rfl⟩ := List.mem_map.mp hitem
    exact ⟨t, rfl, hkind t (hdrop ht)⟩
  eof_only t ht heof := by
    have hmem : t ∈ tokens ++ endMarker options.emitEof source := by simpa [hitems] using ht
    refine ⟨?_, by simp [hitems]⟩
    rcases List.mem_append.mp hmem with hmem | hmem
    · exact absurd heof (hkind t hmem)
    · cases hemit : options.emitEof with
      | true => rfl
      | false => simp [endMarker, hemit] at hmem
  length_le := by
    have hmarker : (endMarker options.emitEof source).length ≤ 1 := by
      cases options.emitEof <;> simp [endMarker]
    rw [hitems, List.length_map, List.length_append]
    omega
  offset_eq e he := by simp [hitems] at he
  ok_iff tokens := collect_eq_ok_iff
  error_iff e := by
    have hok : tokenize options source = .ok (tokens ++ endMarker options.emitEof source) :=
      collect_eq_ok_iff.mpr hitems
    simp [hok, hitems]

/-- The items of a scan that fails are its tokens up to there, and the failure. -/
theorem indexed_of_failure {e : LexError} (hkind : ∀ t ∈ tokens, t.kind ≠ .eof)
    (hlength : tokens.length ≤ source.utf8ByteSize)
    (hoffset : e.offset = Item.lengths (tokens.map .token))
    (hitems : items options source = tokens.map .token ++ [.failure e]) :
    Indexed options source (items options source) where
  run_eq := run_eq_items options source
  tokens_before item hitem := by
    rw [hitems, List.dropLast_concat] at hitem
    obtain ⟨t, ht, rfl⟩ := List.mem_map.mp hitem
    exact ⟨t, rfl, hkind t ht⟩
  eof_only t ht heof := by
    have hmem : t ∈ tokens := by simpa [hitems] using ht
    exact absurd heof (hkind t hmem)
  length_le := by
    rw [hitems, List.length_append, List.length_map, List.length_singleton]
    omega
  offset_eq e' he' := by
    obtain rfl : e' = e := by simpa [hitems] using he'
    rw [hitems, Item.lengths_append, hoffset]
    rfl
  ok_iff tokens := collect_eq_ok_iff
  error_iff e' := by
    have herror : tokenize options source = .error e := by
      rw [tokenize, hitems, collect_map_token_append_failure]
    simp [herror, hitems, eq_comm]

end

/-- **Streams**: a stream is an index into the results of its scan.  Before the last there are
tokens only; the end marker comes last, if asked for, and behind a complete scan only; a report
comes last, on the place where the tokens before it end.  The scan as a whole answers the
report if there is one, and all tokens otherwise. -/
theorem indexed_items (options : ScanOptions) (source : String) :
    Indexed options source (items options source) := by
  obtain ⟨ls, left, hcut⟩ := exists_cuts options.policy source.toList
  have hkind : ∀ t ∈ place 0 ls, t.kind ≠ .eof := by
    intro t ht
    obtain ⟨xs, l, ys, rfl, rfl⟩ := exists_of_mem_place ht
    exact hcut.forall_mem (fun _ _ => kind_ne_eof_of_select) l (by simp)
  have hlength : (place 0 ls).length ≤ source.utf8ByteSize := by
    have hle := length_place_le hcut.text_ne_nil 0
    rw [← byteLength_toList, ← hcut.flatMap_append, byteLength_append]
    omega
  cases left with
  | nil =>
      refine indexed_of_complete hkind hlength ?_
      rw [items_of_cuts hcut, if_pos rfl, List.map_append]
  | cons c after =>
      have hitems := items_of_cuts hcut
      rw [if_neg (List.cons_ne_nil c after)] at hitems
      refine indexed_of_failure hkind hlength ?_ hitems
      rw [lengths_map_token_place, ← hcut.flatMap_append, LexError.at_byteLength]

end PoxTokens
