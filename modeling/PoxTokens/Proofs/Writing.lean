import PoxTokens.Listing.Write
import PoxTokens.Proofs.LoggedScan

/-!
# PoxTokens.Proofs.Writing

What a listing puts into a sink without a limit: every write fits, so a source
that can be scanned puts its whole listing there, and any other source nothing.
-/

namespace PoxTokens

/-- The text of a listing in a format. -/
def Listing.chars (listing : Listing) : ListingFormat → List Char
  | .text => listing.textChars
  | .json => Json.prettyChars 0 listing.json ++ ['\n']

/-- A sink behind some characters that fitted. -/
def Sink.append (sink : Sink) (cs : List Char) : Sink :=
  { sink with written := sink.written ++ utf8Bytes cs }

section
variable {sink : Sink}

/-- An unlimited sink takes everything. -/
theorem writeChars_of_unlimited (h : sink.limit = none) (failure : String → Failure)
    (cs : List Char) : writeChars sink failure cs = (.ok (), sink.append cs) := by
  simp [writeChars, Sink.write, Sink.room, Sink.append, h]

/-- So it takes a listing as a whole. -/
theorem Listing.write_of_unlimited (h : sink.limit = none) (listing : Listing)
    (format : ListingFormat) :
    listing.write format sink = (.ok (), sink.append (listing.chars format)) := by
  cases format with
  | text => exact writeChars_of_unlimited h _ _
  | json =>
      have hjson := writeChars_of_unlimited h .json (Json.prettyChars 0 listing.json)
      have hlimit : (sink.append (Json.prettyChars 0 listing.json)).limit = none := h
      have hlast := writeChars_of_unlimited hlimit .io ['\n']
      rw [write, hjson]
      dsimp only
      rw [hlast]
      simp [Sink.append, chars, utf8Bytes]

end

namespace ListingRequest

/-- A run writes the listing of a source that can be scanned, and nothing of any other. -/
theorem value_run (request : ListingRequest) (sink : Sink) :
    (request.run sink).value =
      match tokenize request.options request.source with
      | .error e => (.error (.lex e), sink)
      | .ok tokens =>
        let (result, sink') := (request.listing tokens).write request.format sink
        (result.map fun _ => (request.shown tokens).length, sink') := by
  rw [← value_tokenizeLogged]
  simp only [run, Logged.value_bind]
  cases (tokenizeLogged request.options request.source).value with
  | error e => rfl
  | ok tokens =>
      dsimp only
      rcases (request.listing tokens).write request.format sink with ⟨_ | _, sink'⟩ <;> rfl

/-- A source that can be scanned leaves its whole listing, and any other source nothing. -/
theorem value_run_of_unlimited (request : ListingRequest) {sink : Sink} (h : sink.limit = none) :
    (request.run sink).value =
      match tokenize request.options request.source with
      | .error e => (.error (.lex e), sink)
      | .ok tokens =>
        (.ok (request.shown tokens).length,
          sink.append ((request.listing tokens).chars request.format)) := by
  rw [value_run]
  simp only [Listing.write_of_unlimited h]
  rfl

end ListingRequest

end PoxTokens
