import PoxTokens.Proofs.Utf8
import PoxTokens.Proofs.Writing

/-!
# PoxTokens.Proofs.BoundedOutput

Listings in a sink with a limit.  The sink takes the beginning of the listing that fits,
byte by byte, and the failure says in which write the limit was met
(`ListingRequest.run_of_limit`).

How a text is split into single writes makes no difference (`writeEach_eq`): a write that
does not fit fills the sink up, and nothing is written behind it.  What remains are the
two texts of a listing in JSON, the document and the line feed, which fail in different
ways.
-/

namespace PoxTokens

/-- The failure of a listing that has more bytes than the limit allows.  In JSON the last
byte is a write of its own. -/
def ListingFormat.overflow (limit size : Nat) : ListingFormat → Failure
  | text => .io Sink.fullMessage
  | json => if limit + 1 < size then .json Sink.fullMessage else .io Sink.fullMessage

/-- Goes on behind a write, if it fitted. -/
def thenWrite (first : Except Failure Unit × Sink) (next : Sink → Except Failure Unit × Sink) :
    Except Failure Unit × Sink :=
  match first with
  | (.ok (), sink) => next sink
  | (.error failure, sink) => (.error failure, sink)

/-- Writes pieces of a text one behind the other, up to the first that does not fit. -/
def writeEach (failure : String → Failure) (sink : Sink) :
    List (List Char) → Except Failure Unit × Sink
  | [] => (.ok (), sink)
  | piece :: pieces =>
    thenWrite (writeChars sink failure piece) fun sink => writeEach failure sink pieces

namespace Listing

/-- The text of a listing without the line feed behind a JSON document. -/
def body (listing : Listing) : ListingFormat → List Char
  | .text => listing.textChars
  | .json => Json.prettyChars 0 listing.json

/-- Writes a listing whose text is split into pieces. -/
def writePieces (pieces : List (List Char)) (format : ListingFormat) (sink : Sink) :
    Except Failure Unit × Sink :=
  match format with
  | .text => writeEach .io sink pieces
  | .json => thenWrite (writeEach .json sink pieces) fun sink => writeChars sink .io ['\n']

end Listing

section
variable {sink : Sink} {limit : Nat}

/-! ## Single writes -/

/-- A sink with a limit takes what there is room for. -/
theorem writeChars_of_limit (h : sink.limit = some limit) (failure : String → Failure)
    (cs : List Char) :
    writeChars sink failure cs =
      (if byteLength cs ≤ limit - sink.written.length then .ok ()
        else .error (failure Sink.fullMessage),
        { sink with
          written := sink.written ++ (utf8Bytes cs).take (limit - sink.written.length) }) := by
  have hfits : min (byteLength cs) (limit - sink.written.length) = byteLength cs ↔
      byteLength cs ≤ limit - sink.written.length := by omega
  rw [writeChars, Sink.write, Sink.room, h]
  dsimp only
  rw [Nat.min_comm, ← List.take_eq_take_min, Nat.min_comm, length_utf8Bytes]
  simp only [beq_iff_eq, hfits]

/-- Two writes, the second of which fails in its own way. -/
theorem thenWrite_of_limit (h : sink.limit = some limit) (failure failure' : String → Failure)
    (cs ds : List Char) :
    thenWrite (writeChars sink failure cs) (fun sink => writeChars sink failure' ds) =
      (if byteLength (cs ++ ds) ≤ limit - sink.written.length then .ok ()
        else if byteLength cs ≤ limit - sink.written.length then .error (failure' Sink.fullMessage)
        else .error (failure Sink.fullMessage),
        { sink with
          written := sink.written ++ (utf8Bytes (cs ++ ds)).take (limit - sink.written.length) }) := by
  rw [writeChars_of_limit h, byteLength_append, utf8Bytes_append]
  by_cases hcs : byteLength cs ≤ limit - sink.written.length
  · -- the second write has the room that the first one leaves
    have hlength : (utf8Bytes cs).length ≤ limit - sink.written.length := by
      rw [length_utf8Bytes]
      exact hcs
    have hroom : limit - (sink.written ++ utf8Bytes cs).length =
        limit - sink.written.length - byteLength cs := by
      rw [List.length_append, length_utf8Bytes]
      omega
    have hfits : byteLength ds ≤ limit - sink.written.length - byteLength cs ↔
        byteLength cs + byteLength ds ≤ limit - sink.written.length := by omega
    have happend : (sink.append cs).limit = some limit := h
    rw [if_pos hcs, if_pos hcs, List.take_append, List.take_of_length_le hlength,
      length_utf8Bytes]
    refine (writeChars_of_limit happend failure' ds).trans ?_
    simp only [Sink.append, hroom, hfits, List.append_assoc]
  · -- the first write fills the sink up, and the second is not begun
    have hlength : limit - sink.written.length ≤ (utf8Bytes cs).length := by
      rw [length_utf8Bytes]
      omega
    rw [if_neg hcs, if_neg (by omega), if_neg hcs, List.take_append_of_le_length hlength, thenWrite]

theorem writeChars_nil (sink : Sink) (failure : String → Failure) :
    writeChars sink failure [] = (.ok (), sink) := by
  obtain ⟨limit, written⟩ := sink
  cases limit with
  | none => simp [writeChars_of_unlimited, Sink.append]
  | some limit => simp [writeChars_of_limit]

/-- Two writes that fail in the same way are one. -/
theorem writeChars_append (sink : Sink) (failure : String → Failure) (cs ds : List Char) :
    writeChars sink failure (cs ++ ds) =
      thenWrite (writeChars sink failure cs) fun sink => writeChars sink failure ds := by
  cases h : sink.limit with
  | none =>
      have happend : (sink.append cs).limit = none := h
      rw [writeChars_of_unlimited h, writeChars_of_unlimited h, thenWrite,
        writeChars_of_unlimited happend]
      simp [Sink.append]
  | some limit => rw [thenWrite_of_limit h, writeChars_of_limit h, ite_self]

/-- However a text is split into writes, the sink takes as much of it and fails alike. -/
theorem writeEach_eq (failure : String → Failure) (sink : Sink) (pieces : List (List Char)) :
    writeEach failure sink pieces = writeChars sink failure pieces.flatten := by
  induction pieces generalizing sink with
  | nil => exact (writeChars_nil sink failure).symm
  | cons piece pieces ih =>
      rw [writeEach, List.flatten_cons, writeChars_append]
      simp only [ih]

/-! ## Listings -/

/-- A listing in JSON is the document and the line feed. -/
theorem Listing.write_json (listing : Listing) (sink : Sink) :
    listing.write .json sink =
      thenWrite (writeChars sink .json (listing.body .json)) fun sink =>
        writeChars sink .io ['\n'] := by
  rw [write, body]
  rcases writeChars sink .json (Json.prettyChars 0 listing.json) with ⟨_ | _, sink'⟩ <;> rfl

/-- How the text of a listing is split into pieces makes no difference. -/
theorem Listing.writePieces_eq {listing : Listing} {format : ListingFormat}
    {pieces : List (List Char)} (h : pieces.flatten = listing.body format) (sink : Sink) :
    writePieces pieces format sink = listing.write format sink := by
  cases format with
  | text => rw [writePieces, writeEach_eq, h]; rfl
  | json => rw [writePieces, writeEach_eq, h, write_json]

/-- An empty sink with a limit takes the beginning of a listing, and all of it if it fits. -/
theorem Listing.write_of_limit (listing : Listing) (format : ListingFormat) (limit : Nat) :
    listing.write format { limit := some limit } =
      (if byteLength (listing.chars format) ≤ limit then .ok ()
        else .error (format.overflow limit (byteLength (listing.chars format))),
        { limit := some limit, written := (utf8Bytes (listing.chars format)).take limit }) := by
  cases format with
  | text => exact writeChars_of_limit rfl .io listing.textChars
  | json =>
      have hsize : byteLength (listing.chars .json) = byteLength (listing.body .json) + 1 := by
        rw [chars, byteLength_append]
        rfl
      have hoverflow : ListingFormat.json.overflow limit (byteLength (listing.chars .json)) =
          if byteLength (listing.body .json) ≤ limit then .io Sink.fullMessage
          else .json Sink.fullMessage := by
        rw [ListingFormat.overflow, hsize]
        split <;> split <;> first | rfl | omega
      have hlimit : Sink.limit { limit := some limit } = some limit := rfl
      rw [write_json, thenWrite_of_limit hlimit, hoverflow, apply_ite Except.error]
      rfl

end

/-- **Bounded output**: a sink with a limit gets the beginning of what the run writes without
one, and the result is the same if that is all; otherwise it is the failure of the write in
which the limit is met.  A source that cannot be scanned writes nothing.  None of this depends
on how the text is split into single writes. -/
theorem ListingRequest.run_of_limit (request : ListingRequest) (limit : Nat) :
    let unlimited := (request.run { limit := none }).value
    let limited := (request.run { limit := some limit }).value
    let full := unlimited.2.written
    match tokenize request.options request.source with
    | .error e => limited = (.error (.lex e), { limit := some limit, written := [] })
    | .ok tokens =>
      limited.2.written = full.take (min limit full.length) ∧
      (∃ count, unlimited.1 = .ok count ∧ (limited.1 = .ok count ↔ full.length ≤ limit)) ∧
      (limit < full.length → limited.1 = .error (request.format.overflow limit full.length)) ∧
      ∀ pieces, pieces.flatten = (request.listing tokens).body request.format →
        let (result, sink) := Listing.writePieces pieces request.format { limit := some limit }
        limited = (result.map fun _ => (request.shown tokens).length, sink) := by
  intro unlimited limited full
  have hnone : Sink.limit { limit := none } = none := rfl
  have hunlimited : unlimited = _ := request.value_run_of_unlimited hnone
  have hlimited : limited = _ := request.value_run { limit := some limit }
  cases h : tokenize request.options request.source with
  | error e =>
      rw [h] at hlimited
      exact hlimited
  | ok tokens =>
      rw [h] at hunlimited hlimited
      have hfull : full = utf8Bytes ((request.listing tokens).chars request.format) :=
        congrArg (·.2.written) hunlimited
      have hsize : full.length = byteLength ((request.listing tokens).chars request.format) := by
        rw [hfull, length_utf8Bytes]
      dsimp only at hlimited ⊢
      rw [Listing.write_of_limit, ← hsize, ← hfull] at hlimited
      refine ⟨?_, ⟨_, congrArg Prod.fst hunlimited, ?_⟩, ?_, ?_⟩
      · rw [hlimited]
        exact List.take_eq_take_min
      · rw [hlimited]
        by_cases hle : full.length ≤ limit <;> simp [hle, Except.map]
      · intro hlt
        rw [hlimited, if_neg (by omega)]
        rfl
      · intro pieces hpieces
        rw [Listing.writePieces_eq hpieces, Listing.write_of_limit, ← hsize, ← hfull]
        exact hlimited

/-- A listing of 76 bytes in sinks that have no room for the last byte, and for the last two. -/
theorem ListingRequest.run_of_limit_json :
    let request : ListingRequest := { source := "\"é\"", format := .json }
    let full := (request.run { limit := none }).value.2.written
    full.length = 76 ∧
      (request.run { limit := some 75 }).value.1 = .error (.io Sink.fullMessage) ∧
      (request.run { limit := some 74 }).value.1 = .error (.json Sink.fullMessage) ∧
      (request.run { limit := some 74 }).value.2.written = full.take 74 := by
  intro request full
  have hlength : full.length = 76 := by decide +kernel
  have hitems : items {} request.source = [.token ⟨0, "\"é\"", .string⟩] := by decide +kernel
  have h : tokenize request.options request.source = .ok [⟨0, "\"é\"", .string⟩] := by
    rw [tokenize, hitems]
    rfl
  have hlast := request.run_of_limit 75
  have hlastTwo := request.run_of_limit 74
  rw [h] at hlast hlastTwo
  obtain ⟨-, -, hio, -⟩ := hlast
  obtain ⟨hwritten, -, hjson, -⟩ := hlastTwo
  refine ⟨hlength, ?_, ?_, ?_⟩
  · rw [hio (by rw [hlength]; decide), hlength]
    rfl
  · rw [hjson (by rw [hlength]; decide), hlength]
    rfl
  · rw [hwritten, hlength]
    rfl

end PoxTokens
