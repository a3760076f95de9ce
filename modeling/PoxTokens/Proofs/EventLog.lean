import PoxTokens.Proofs.Acceptance
import PoxTokens.Proofs.LoggedScan
import PoxTokens.Proofs.Writing

/-!
# PoxTokens.Proofs.EventLog

What a scan and a listing report while they work.  The events of the tokens lie side by side:
they cover the source of a scan that succeeds, and what stands before the reported place of one
that fails (`ListingRequest.log_run`).  One result of a stream adds one tile or none
(`TokenStream.tiles_of_next?`), so all results of a stream are a tiling of what it moves over.

The events for someone who looks for a fault are one for each scan.  It tells sizes, counts,
offsets and the policy, but also the character before which a scan failed
(`debugEvents_eq_iff`).
-/

namespace PoxTokens

/-! ## Log entries -/

/-- What a log has of an event. -/
structure LogEntry where
  level : Level
  message : String
  fields : List (String × FieldValue)
  deriving DecidableEq

/-- The entry of an event. -/
def Event.entry (event : Event) : LogEntry := ⟨event.level, event.message, event.fields⟩

/-- The entry of a token: its kind, where it stands and how many bytes it has. -/
def Token.entry (t : Token) : LogEntry :=
  ⟨.trace, "token",
    [("kind", .text t.kind.name), ("position", .number t.position), ("len", .number t.length)]⟩

theorem map_entry_event (tokens : List Token) :
    (tokens.map Token.event).map Event.entry = tokens.map Token.entry :=
  List.map_map

/-- The events of a level. -/
def eventsAt (level : Level) (events : List Event) : List Event :=
  events.filter (·.level = level)

@[simp] theorem eventsAt_nil (level : Level) : eventsAt level [] = [] := rfl

/-- An event counts at its own level only. -/
theorem eventsAt_cons (level : Level) (event : Event) (events : List Event) :
    eventsAt level (event :: events) =
      if event.level = level then event :: eventsAt level events else eventsAt level events := by
  simp [eventsAt, List.filter_cons]

@[simp] theorem eventsAt_append (level : Level) (events others : List Event) :
    eventsAt level (events ++ others) = eventsAt level events ++ eventsAt level others :=
  List.filter_append events others

/-- Events of tokens that lie side by side, from one offset of a source to another. -/
inductive Tiles : Nat → List Event → Nat → Prop where
  | nil (offset : Nat) : Tiles offset [] offset
  | cons (kind : Kind) {start length stop : Nat} {events : List Event} (hpos : 0 < length)
      (h : Tiles (start + length) events stop) :
      Tiles start (.token kind start length :: events) stop

/-! ## Events of a stream -/

namespace TokenStream

variable {st st' : TokenStream} {item : Item}

/-- One result is one tile, from where the stream stood to where it stands then; the end marker
and a report are none. -/
theorem tiles_of_next? (h : st.next? = some (item, st')) {events : List Event} {stop : Nat}
    (htiles : Tiles st'.position events stop) :
    Tiles st.position (item.event?.toList ++ events) stop := by
  rcases next?_cases h with ⟨-, rfl, rfl⟩ | ⟨l, hselect, rfl, rfl⟩ | ⟨-, -, rfl, rfl⟩
  · exact htiles
  · have hkind : (l.at st.position).kind ≠ .eof := kind_ne_eof_of_select hselect
    have hlength : (l.at st.position).length = byteLength l.text := utf8ByteSize_ofList l.text
    have hpos : 0 < byteLength l.text :=
      Nat.pos_of_ne_zero (mt byteLength_eq_zero_iff.mp (Policy.select_isPrefix hselect).2)
    rw [Item.event?, if_neg hkind, Token.event, hlength]
    exact .cons l.kind hpos htiles
  · exact htiles

/-- The results that a stream still yields are a tiling of what it still moves over. -/
theorem tiles_drain (st : TokenStream) :
    Tiles st.position (st.drain.1.filterMap Item.event?) st.drain.2.position := by
  induction st using results_induction with
  | stop st h =>
      rw [drain_of_next?_eq_none h]
      exact .nil st.position
  | next st item st' h ih =>
      rw [drain_of_next?_eq_some h, List.filterMap_eq_flatMap_toList, List.flatMap_cons,
        ← List.filterMap_eq_flatMap_toList]
      exact tiles_of_next? h ih

end TokenStream

/-! ## Events of a scan -/

section
variable {options : ScanOptions} {source : String}

/-- Where a scan ends: behind the source, or at the place of its report. -/
def scanStop (source : String) : Except LexError (List Token) → Nat
  | .ok _ => source.utf8ByteSize
  | .error e => e.offset

/-- The results of a scan take the bytes up to where it ends. -/
theorem lengths_items (options : ScanOptions) (source : String) :
    Item.lengths (items options source) = scanStop source (tokenize options source) := by
  obtain ⟨ls, left, hcut⟩ := exists_cuts options.policy source.toList
  rw [items_of_cuts hcut, Item.lengths_append, lengths_map_token_place]
  cases left with
  | nil =>
      have hmarker : Item.lengths ((endMarker options.emitEof source).map .token) = 0 := by
        cases options.emitEof <;> rfl
      rw [if_pos rfl, hmarker, tokenize_of_cuts_nil hcut, hcut.flatMap_text, byteLength_toList]
      rfl
  | cons c after =>
      have hleft : c :: after ≠ [] := List.cons_ne_nil c after
      rw [if_neg hleft, tokenize_of_cuts_ne_nil hcut hleft, scanStop, ← hcut.flatMap_append,
        LexError.at_byteLength]
      rfl

/-- The tokens that a scan reports are a tiling of what it scanned, whether it succeeds or
not. -/
theorem tiles_items (options : ScanOptions) (source : String) :
    Tiles 0 ((items options source).filterMap Item.event?)
      (scanStop source (tokenize options source)) := by
  have htiles := TokenStream.tiles_drain (TokenStream.start options source)
  rw [TokenStream.position_drain, TokenStream.drain_start, lengths_items] at htiles
  simpa [TokenStream.start] using htiles

/-- The tokens but for the end marker have an event each. -/
theorem filterMap_event?_map_token (tokens : List Token) :
    (tokens.map Item.token).filterMap Item.event? =
      (tokens.filter (·.kind ≠ .eof)).map Token.event := by
  induction tokens with
  | nil => rfl
  | cons t tokens ih => by_cases h : t.kind = .eof <;> simp [Item.event?, Token.event, h, ih]

/-- A failed scan has found some tokens before its report, and each of them has an event. -/
theorem exists_items_of_tokenize_eq_error {e : LexError} (h : tokenize options source = .error e) :
    ∃ scanned : List Token, items options source = scanned.map .token ++ [.failure e] ∧
      (items options source).filterMap Item.event? = scanned.map Token.event := by
  obtain ⟨ls, left, hcut, hleft, rfl⟩ := tokenize_eq_error_iff.mp h
  have hkind : ∀ t ∈ place 0 ls, t.kind ≠ .eof := by
    intro t ht
    obtain ⟨xs, l, ys, rfl, rfl⟩ := exists_of_mem_place ht
    exact hcut.forall_mem (fun _ _ => kind_ne_eof_of_select) l (by simp)
  refine ⟨place 0 ls, by rw [items_of_cuts hcut, if_neg hleft], ?_⟩
  rw [items_of_cuts hcut, if_neg hleft, List.filterMap_append, filterMap_event?_map_token,
    List.filter_eq_self.mpr (by simpa using hkind)]
  exact List.append_nil _

/-- Tokens are details, and how a scan ended is not. -/
theorem eventsAt_filterMap_event? (level : Level) (results : List Item) :
    eventsAt level (results.filterMap Item.event?) =
      if level = .trace then results.filterMap Item.event? else [] := by
  have htrace : ∀ event ∈ results.filterMap Item.event?, event.level = .trace := by
    intro event hevent
    obtain ⟨item, -, hitem⟩ := List.mem_filterMap.mp hevent
    cases item with
    | failure e => contradiction
    | token t =>
        rw [Item.event?] at hitem
        split at hitem
        · contradiction
        · cases hitem
          rfl
  rw [eventsAt]
  split
  · next hlevel =>
      rw [List.filter_eq_self]
      intro event hevent
      simp [htrace event hevent, hlevel]
  · next hlevel =>
      rw [List.filter_eq_nil_iff]
      intro event hevent
      simpa [htrace event hevent] using Ne.symm hlevel

/-- How a scan ended is reported at the level for debugging, whether it failed or not. -/
theorem level_scanEvent (options : ScanOptions) (source : String)
    (answer : Except LexError (List Token)) : (scanEvent options source answer).level = .debug := by
  cases answer <;> rfl

/-- Of the events of a scan the tokens are details, and how it ended is not. -/
theorem eventsAt_tokenizeLogged (level : Level) (options : ScanOptions) (source : String) :
    eventsAt level (tokenizeLogged options source).events =
      match level with
      | .trace => (items options source).filterMap Item.event?
      | .debug => [scanEvent options source (tokenize options source)] := by
  have hlast := level_scanEvent options source (tokenize options source)
  rw [events_tokenizeLogged, eventsAt_append, eventsAt_filterMap_event?, eventsAt_cons, hlast]
  cases level <;> simp

end

/-! ## Events of a listing -/

namespace ListingRequest

/-- What a listing in a sink without a limit reports: that it begins, the events of the scan,
and, if there are tokens, that they were written. -/
theorem events_run_of_unlimited (request : ListingRequest) {sink : Sink} (h : sink.limit = none) :
    (request.run sink).events =
      .listing request.source.utf8ByteSize request.options.policy ::
        ((tokenizeLogged request.options request.source).events ++
          match tokenize request.options request.source with
          | .error _ => []
          | .ok tokens =>
            [.listed request.source.utf8ByteSize tokens.length (request.shown tokens).length]) := by
  rw [← value_tokenizeLogged]
  simp only [run, Logged.events_bind, Logged.events_report, List.singleton_append]
  cases (tokenizeLogged request.options request.source).value with
  | error e => rfl
  | ok tokens =>
      dsimp only
      rw [Listing.write_of_unlimited h]
      rfl

/-- A listing reports no token but those of the scan. -/
theorem eventsAt_trace_run (request : ListingRequest) {sink : Sink} (h : sink.limit = none) :
    eventsAt .trace (request.run sink).events =
      (items request.options request.source).filterMap Item.event? := by
  rw [request.events_run_of_unlimited h, eventsAt_cons, eventsAt_append, eventsAt_tokenizeLogged]
  cases tokenize request.options request.source <;> simp [eventsAt, Event.level]

/-- **The log of a listing**: in a sink without a limit, a listing reports that it begins, then
each scanned token but for the end marker, in order, and then, if the scan succeeds, the counts
of all tokens and of those shown, and, if it fails, the place and the character that no rule
recognises.  The tokens reported lie side by side, from the start of the source to its end or
to that place, though a scan that fails answers none of them. -/
theorem log_run (request : ListingRequest) (written : List UInt8) :
    let source := request.source
    let bytes : FieldValue := .number source.utf8ByteSize
    let policy : FieldValue := .text request.options.policy.name
    let run := request.run { limit := none, written }
    let log := run.events.map Event.entry
    let traced := eventsAt .trace run.events
    let started : LogEntry := ⟨.debug, "tokenizing source", [("bytes", bytes), ("policy", policy)]⟩
    match tokenize request.options source with
    | .ok tokens =>
      ∃ shown, run.value.1 = .ok shown ∧
        log = started :: ((tokens.filter (·.kind ≠ .eof)).map Token.entry ++
          [⟨.debug, "lexing finished",
            [("tokens", .number tokens.length), ("bytes", bytes), ("policy", policy)]⟩,
          ⟨.debug, s!"tokenized {source.utf8ByteSize} bytes",
            [("total", .number tokens.length), ("shown", .number shown)]⟩]) ∧
        Tiles 0 traced source.utf8ByteSize
    | .error e =>
      run.value = (.error (.lex e), { limit := none, written }) ∧
        ∃ scanned : List Token, items request.options source = scanned.map .token ++ [.failure e] ∧
          log = started :: (scanned.map Token.entry ++
            [⟨.debug, "lexing failed",
              [("offset", .number e.offset), ("found", .verbatim (quotedChar e.found))]⟩]) ∧
          Tiles 0 traced e.offset := by
  intro source bytes policy run log traced started
  have hlimit : ({ limit := none, written } : Sink).limit = none := rfl
  have hevents := request.events_run_of_unlimited hlimit
  have hvalue := request.value_run_of_unlimited hlimit
  have htiles := tiles_items request.options source
  rw [← request.eventsAt_trace_run hlimit] at htiles
  cases hscan : tokenize request.options source with
  | ok tokens =>
      rw [hscan] at hevents hvalue htiles
      refine ⟨_, congrArg Prod.fst hvalue, ?_, htiles⟩
      have htokens : (items request.options source).filterMap Item.event? = _ :=
        (congrArg _ (collect_eq_ok_iff.mp hscan)).trans (filterMap_event?_map_token tokens)
      rw [events_tokenizeLogged, htokens, hscan] at hevents
      simp only [log, run, hevents, List.map_cons, List.map_append, List.append_assoc,
        map_entry_event]
      rfl
  | error e =>
      rw [hscan] at hevents hvalue htiles
      obtain ⟨scanned, hitems, htokens⟩ := exists_items_of_tokenize_eq_error hscan
      refine ⟨hvalue, scanned, hitems, ?_, htiles⟩
      rw [events_tokenizeLogged, htokens, hscan] at hevents
      simp only [log, run, hevents, List.map_cons, List.map_append, List.append_assoc,
        map_entry_event]
      rfl

end ListingRequest

/-! ## What a log tells of a source -/

/-- Two answers of scans look alike if both are tokens, and as many, or both are reports, and on
one offset. -/
def LookAlike : Except LexError (List Token) → Except LexError (List Token) → Prop
  | .ok tokens, .ok others => tokens.length = others.length
  | .error e, .error e' => e.offset = e'.offset
  | _, _ => False

/-- The character before which a scan ended, if it failed. -/
def foundChar? : Except LexError (List Token) → Option Char
  | .ok _ => none
  | .error e => some e.found

/-- How a scan ended is the same event for two sources of one size with answers that look alike,
if also the characters before which they end are the same. -/
theorem scanEvent_eq_iff {options : ScanOptions} {source other : String}
    {answer answer' : Except LexError (List Token)}
    (hsize : source.utf8ByteSize = other.utf8ByteSize) (halike : LookAlike answer answer') :
    scanEvent options source answer = scanEvent options other answer' ↔
      foundChar? answer = foundChar? answer' := by
  cases answer with
  | ok tokens =>
      cases answer' with
      | error e' => contradiction
      | ok others =>
          have hcount : tokens.length = others.length := halike
          simp [scanEvent, foundChar?, hsize, hcount]
  | error e =>
      cases answer' with
      | ok others => contradiction
      | error e' =>
          have hoffset : e.offset = e'.offset := halike
          simp [scanEvent, foundChar?, hoffset]

/-- **What the log for faults tells**: two sources of one size, whose scans answer as many tokens
or report on one offset, are told apart by the events above those of the tokens only if the
scans fail, and then by nothing but the characters that no rule recognises. -/
theorem debugEvents_eq_iff (options : ScanOptions) {source other : String}
    (hsize : source.utf8ByteSize = other.utf8ByteSize)
    (halike : LookAlike (tokenize options source) (tokenize options other)) :
    eventsAt .debug (tokenizeLogged options source).events =
        eventsAt .debug (tokenizeLogged options other).events ↔
      foundChar? (tokenize options source) = foundChar? (tokenize options other) := by
  rw [eventsAt_tokenizeLogged, eventsAt_tokenizeLogged, List.cons.injEq,
    and_iff_left (rfl : ([] : List Event) = []), scanEvent_eq_iff hsize halike]

/-- Two sources that differ in a string of four bytes, before the character on which both fail. -/
theorem debugEvents_eq_iff_strings :
    let source := "\"é\"#"
    let other := "\"ab\"#"
    source.utf8ByteSize = other.utf8ByteSize ∧
      LookAlike (tokenize {} source) (tokenize {} other) ∧
      (eventsAt .debug (tokenizeLogged {} source).events =
          eventsAt .debug (tokenizeLogged {} other).events ↔
        foundChar? (tokenize {} source) = foundChar? (tokenize {} other)) := by
  intro source other
  have hsource : tokenize {} source = .error ⟨4, "\"é\"", '#'⟩ := by
    have hfirst : QuoteState.outside.firstOffending? source.toList =
        some ("\"é\"".toList, '#') := by decide +kernel
    exact tokenize_of_firstOffending?_eq_some {} hfirst
  have hother : tokenize {} other = .error ⟨4, "\"ab\"", '#'⟩ := by
    have hfirst : QuoteState.outside.firstOffending? other.toList =
        some ("\"ab\"".toList, '#') := by decide +kernel
    exact tokenize_of_firstOffending?_eq_some {} hfirst
  have hsize : source.utf8ByteSize = other.utf8ByteSize := by decide
  have halike : LookAlike (tokenize {} source) (tokenize {} other) := by
    rw [hsource, hother]
    rfl
  exact ⟨hsize, halike, debugEvents_eq_iff {} hsize halike⟩

/-- Sources of one character, on which the scan fails, are told apart by the log for faults. -/
theorem debugEvents_show_found :
    let source := "#"
    let other := "@"
    let logged (s : String) := (eventsAt .debug (tokenizeLogged {} s).events).map Event.entry
    source.utf8ByteSize = other.utf8ByteSize ∧
      LookAlike (tokenize {} source) (tokenize {} other) ∧
      logged source =
        [⟨.debug, "lexing failed", [("offset", .number 0), ("found", .verbatim "'#'")]⟩] ∧
      logged other =
        [⟨.debug, "lexing failed", [("offset", .number 0), ("found", .verbatim "'@'")]⟩] ∧
      logged source ≠ logged other := by
  intro source other logged
  have hsource : tokenize {} source = .error ⟨0, "", '#'⟩ := by
    have hfirst : QuoteState.outside.firstOffending? source.toList = some ([], '#') := by
      decide +kernel
    exact tokenize_of_firstOffending?_eq_some {} hfirst
  have hother : tokenize {} other = .error ⟨0, "", '@'⟩ := by
    have hfirst : QuoteState.outside.firstOffending? other.toList = some ([], '@') := by
      decide +kernel
    exact tokenize_of_firstOffending?_eq_some {} hfirst
  have hentry : logged source =
      [⟨.debug, "lexing failed", [("offset", .number 0), ("found", .verbatim "'#'")]⟩] := by
    simp only [logged, eventsAt_tokenizeLogged, hsource]
    rfl
  have hentry' : logged other =
      [⟨.debug, "lexing failed", [("offset", .number 0), ("found", .verbatim "'@'")]⟩] := by
    simp only [logged, eventsAt_tokenizeLogged, hother]
    rfl
  refine ⟨rfl, ?_, hentry, hentry', ?_⟩
  · rw [hsource, hother]
    rfl
  · rw [hentry, hentry']
    decide

end PoxTokens
