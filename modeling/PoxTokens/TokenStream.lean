import PoxTokens.Log

/-!
# PoxTokens.TokenStream

The results of a scan one at a time.  A stream remembers the source, the text
that is still to be scanned and the byte offset where that text starts; it
yields at most one report and then has ended.  A token is reported as an event
when the stream yields it, so whatever takes results from a stream has their
events: a scan of the whole source (`tokenizeLogged`), and a script of operations
with one slot for a saved stream (`streamLogged`).  A stream is a plain value, so
to save it is to keep it.
-/

namespace PoxTokens

/-- A scan in progress. -/
structure TokenStream where
  options : ScanOptions
  source : List Char
  /-- The text that is still to be scanned. -/
  rest : List Char
  /-- Byte offset where `rest` starts. -/
  position : Nat
  /-- Set by the end marker and by a report. -/
  ended : Bool

namespace TokenStream

/-- A scan that has not begun. -/
def start (options : ScanOptions) (source : String) : TokenStream :=
  { options, source := source.toList, rest := source.toList, position := 0, ended := false }

/-- The next result, with the stream behind it; `none` when there is no more.  A token
is reported when it is yielded, unless it is the end marker. -/
def nextLogged (st : TokenStream) : Logged (Option (Item × TokenStream)) :=
  if st.ended then pure none
  else if st.rest.isEmpty then
    if st.options.emitEof then
      pure (some (.token (eofToken st.source), { st with ended := true }))
    else pure none
  else
    match st.options.policy.select ruleTable st.rest with
    | some l => do
      let t := l.at st.position
      Logged.report t.event
      pure (some (.token t,
        { st with
          rest := st.rest.drop l.text.length
          position := st.position + byteLength l.text }))
    | none =>
      pure (some (.failure (LexError.at st.source st.position st.options.contextWidth),
        { st with ended := true }))

/-- The next result without its event. -/
def next? (st : TokenStream) : Option (Item × TokenStream) := st.nextLogged.value

/-- What the next result is: nothing, the end marker, a token or a report. -/
theorem next?_eq (st : TokenStream) :
    st.next? =
      if st.ended then none
      else if st.rest.isEmpty then
        if st.options.emitEof then some (.token (eofToken st.source), { st with ended := true })
        else none
      else
        match st.options.policy.select ruleTable st.rest with
        | some l =>
          some (.token (l.at st.position),
            { st with
              rest := st.rest.drop l.text.length
              position := st.position + byteLength l.text })
        | none =>
          some (.failure (LexError.at st.source st.position st.options.contextWidth),
            { st with ended := true }) := by
  rw [next?, nextLogged]
  split
  · rfl
  · split
    · split <;> rfl
    · split <;> rfl

/-- What bounds the number of results: the characters that are left, and one
more as long as the stream has not ended. -/
def remainingBound (st : TokenStream) : Nat :=
  st.rest.length + if st.ended then 0 else 1

/-- Every result makes the bound smaller. -/
theorem remainingBound_lt {st st' : TokenStream} {item : Item}
    (h : st.next? = some (item, st')) : st'.remainingBound < st.remainingBound := by
  rw [next?_eq] at h
  split at h
  · simp at h
  · next hended =>
    split at h
    · split at h
      · simp only [Option.some.injEq, Prod.mk.injEq] at h
        obtain ⟨-, rfl⟩ := h
        simp_all [remainingBound]
      · simp at h
    · split at h
      · next l hl =>
        simp only [Option.some.injEq, Prod.mk.injEq] at h
        obtain ⟨-, rfl⟩ := h
        have := Policy.length_drop_lt hl
        simp only [remainingBound]; omega
      · simp only [Option.some.injEq, Prod.mk.injEq] at h
        obtain ⟨-, rfl⟩ := h
        simp_all [remainingBound]

/-- All results that are left, with the stream at its end. -/
def drainLogged (st : TokenStream) : Logged (List Item × TokenStream) :=
  match _h : st.next? with
  | none => ⟨st.nextLogged.events, ([], st)⟩
  | some (item, st') =>
    let ⟨events, items, last⟩ := drainLogged st'
    ⟨st.nextLogged.events ++ events, (item :: items, last)⟩
termination_by st.remainingBound
decreasing_by exact remainingBound_lt _h

/-- All results that are left, without their events. -/
def drain (st : TokenStream) : List Item × TokenStream := st.drainLogged.value

/-- The tokens that are left, or the first report, behind which no result is taken. -/
def collectLogged (st : TokenStream) : Logged (Except LexError (List Token)) :=
  match _h : st.next? with
  | none => ⟨st.nextLogged.events, .ok []⟩
  | some (.failure e, _) => ⟨st.nextLogged.events, .error e⟩
  | some (.token t, st') =>
    let ⟨events, answer⟩ := collectLogged st'
    ⟨st.nextLogged.events ++ events, answer.map (t :: ·)⟩
termination_by st.remainingBound
decreasing_by exact remainingBound_lt _h

end TokenStream

/-! ## Scans -/

/-- `tokenize` with its events: each token when it is scanned, and then how the scan
ended. -/
def tokenizeLogged (options : ScanOptions) (source : String) :
    Logged (Except LexError (List Token)) := do
  let answer ← (TokenStream.start options source).collectLogged
  Logged.report (scanEvent options source answer)
  pure answer

/-! ## Scripts -/

/-- An operation on a stream. -/
inductive StreamOp where
  /-- Take one result. -/
  | next
  /-- Take all results that are left. -/
  | rest
  /-- Take all results that are left and count them. -/
  | count
  /-- Only look at the position. -/
  | position
  /-- Put a copy of the stream into the slot. -/
  | save
  /-- Go on from a copy of what the slot holds. -/
  | restore
  deriving DecidableEq, Repr

/-- What an operation answers. -/
inductive StreamAnswer where
  | nothing
  | item (i : Item)
  | items (is : List Item)
  | number (n : Nat)
  deriving DecidableEq, Repr

/-- What an operation answers, where the stream stands after it, and which
results it took. -/
structure StreamStep where
  answer : StreamAnswer
  position : Nat
  taken : List Item
  deriving DecidableEq, Repr

namespace StreamOp

/-- Performs one operation on a stream and a slot. -/
def stepLogged (st slot : TokenStream) :
    StreamOp → Logged (StreamStep × TokenStream × TokenStream)
  | next => do
    match ← st.nextLogged with
    | none => pure (⟨.nothing, st.position, []⟩, st, slot)
    | some (i, st') => pure (⟨.item i, st'.position, [i]⟩, st', slot)
  | rest => do
    let (is, st') ← st.drainLogged
    pure (⟨.items is, st'.position, is⟩, st', slot)
  | count => do
    let (is, st') ← st.drainLogged
    pure (⟨.number is.length, st'.position, is⟩, st', slot)
  | position => pure (⟨.nothing, st.position, []⟩, st, slot)
  | save => pure (⟨.nothing, st.position, []⟩, st, st)
  | restore => pure (⟨.nothing, slot.position, []⟩, slot, slot)

/-- Performs one operation, without its events. -/
def step (st slot : TokenStream) (op : StreamOp) : StreamStep × TokenStream × TokenStream :=
  (stepLogged st slot op).value

/-- What an operation does, in terms of what the stream yields. -/
theorem step_eq (st slot : TokenStream) (op : StreamOp) :
    step st slot op =
      match op with
      | next =>
        match st.next? with
        | none => (⟨.nothing, st.position, []⟩, st, slot)
        | some (i, st') => (⟨.item i, st'.position, [i]⟩, st', slot)
      | rest => (⟨.items st.drain.1, st.drain.2.position, st.drain.1⟩, st.drain.2, slot)
      | count => (⟨.number st.drain.1.length, st.drain.2.position, st.drain.1⟩, st.drain.2, slot)
      | position => (⟨.nothing, st.position, []⟩, st, slot)
      | save => (⟨.nothing, st.position, []⟩, st, st)
      | restore => (⟨.nothing, slot.position, []⟩, slot, slot) := by
  cases op with
  | next =>
    simp only [step, stepLogged, Logged.value_bind, TokenStream.next?]
    split <;> rfl
  | rest => rfl
  | count => rfl
  | position => rfl
  | save => rfl
  | restore => rfl

/-- Performs operations in order. -/
def runFromLogged (st slot : TokenStream) : List StreamOp → Logged (List StreamStep)
  | [] => pure []
  | op :: ops => do
    let (result, st', slot') ← stepLogged st slot op
    let results ← runFromLogged st' slot' ops
    pure (result :: results)

/-- Performs operations in order, without their events. -/
def runFrom (st slot : TokenStream) (ops : List StreamOp) : List StreamStep :=
  (runFromLogged st slot ops).value

/-- The first operation leaves the streams on which the others are performed. -/
theorem runFrom_cons (st slot : TokenStream) (op : StreamOp) (ops : List StreamOp) :
    runFrom st slot (op :: ops) =
      (step st slot op).1 :: runFrom (step st slot op).2.1 (step st slot op).2.2 ops :=
  rfl

end StreamOp

/-- Performs operations on a fresh stream; the slot starts as a copy of it.  A token is
reported when it is taken, and again when a saved stream takes it once more. -/
def streamLogged (options : ScanOptions) (source : String) (ops : List StreamOp) :
    Logged (List StreamStep) :=
  let fresh := TokenStream.start options source
  StreamOp.runFromLogged fresh fresh ops

/-- Performs operations on a fresh stream, without their events. -/
def StreamOp.run (options : ScanOptions) (source : String) (ops : List StreamOp) :
    List StreamStep :=
  (streamLogged options source ops).value

end PoxTokens
