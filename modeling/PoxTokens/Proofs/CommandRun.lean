import PoxTokens.CommandLine.Run
import PoxTokens.Proofs.PrintedLine
import PoxTokens.Proofs.Reading

/-!
# PoxTokens.Proofs.CommandRun

What the command that lists a source leaves behind.  It leaves the whole listing or nothing
but one line that says why not (`run_listing`), and this line has no line break inside:
what it shows of the source is quoted, and the rest of it is printable.
-/

namespace PoxTokens

/-! ## One line -/

/-- The message for a character that no rule recognises is a single line, since what it shows of the
source is quoted. -/
theorem isLine_message_lex (e : LexError) : isLine ("poxt: " ++ (Failure.lex e).message) := by
  have hwords : isLine "poxt: " ∧ isLine "Lex error: " := by decide
  have hmessage : (Failure.lex e).message = "Lex error: " ++ e.message := rfl
  simp only [hmessage, isLine_append, hwords, e.isLine_message, Bool.and_self]

namespace CommandLine

/-! ## Sources -/

/-- A text is the source of a request: it is given inline, or it is the text of the input
without one line break at its end. -/
def TokenizeRequest.HasSource (request : TokenizeRequest) (bytes : ByteArray)
    (source : String) : Prop :=
  request.source = some source ∧ source ≠ "-" ∨
    (request.source = none ∨ request.source = some "-") ∧
      ∃ text : String, text.toUTF8 = bytes ∧ source = String.ofList (dropLineBreak text.toList)

section
variable {request : TokenizeRequest} {input : List ReadResult} {bytes : ByteArray}

/-- The source of a request is the one text that its inline source and the input leave. -/
theorem sourceText_eq_ok_iff (hinput : Gives input bytes none) {source : String} :
    sourceText request.source input = .ok source ↔ request.HasSource bytes source := by
  rw [TokenizeRequest.HasSource, ← inputText_eq_ok_iff hinput]
  cases request.source with
  | none => simp [sourceText]
  | some text =>
      by_cases h : text = "-"
      · simp +contextual [sourceText, inputMarker, h, eq_comm]
      · simp only [sourceText, inputMarker, h, if_false]
        grind

/-- The only reason why there is no source. -/
theorem eq_sourceNotText (hinput : Gives input bytes none) {failure : Failure}
    (h : sourceText request.source input = .error failure) : failure = .sourceNotText := by
  unfold sourceText at h
  split at h
  · split at h
    · exact eq_sourceNotText_of_inputText hinput h
    · contradiction
  · exact eq_sourceNotText_of_inputText hinput h

end

/-! ## Outcomes -/

/-- Without a log, the error stream has the line for the failure only. -/
theorem Invocation.outcome_of_quiet {invocation : Invocation} (h : invocation.verbose = false)
    (host : Host) (time : String) :
    invocation.outcome host time =
      match (invocation.run host { limit := none }).value with
      | (.ok (), sink) => ⟨0, sink.written, ""⟩
      | (.error failure, sink) => ⟨1, sink.written, failureLine failure⟩ := by
  rw [outcome]
  obtain ⟨events, result, sink⟩ := invocation.run host { limit := none }
  cases result with
  | ok => simp [h]
  | error failure => simp [h]

section
variable {arguments : List String} {invocation : Invocation}
  {request : TokenizeRequest} {settings : Settings}

/-- The outcome of the command that lists a source: the whole listing, or the line for the
failure and nothing else. -/
theorem run_listing (host : Host) (hread : Invocation.read host.env arguments = .ok invocation)
    (hcommand : invocation.command = .tokenize request) (hquiet : invocation.verbose = false)
    (hload : (Settings.load host.directories host.look invocation.config).value = .ok settings)
    (time : String) :
    run host time arguments =
      match sourceText request.source host.input with
      | .error failure => ⟨1, [], failureLine failure⟩
      | .ok source =>
        let merged := request.listing settings source
        match tokenize merged.options source with
        | .error e => ⟨1, [], failureLine (.lex e)⟩
        | .ok tokens => ⟨0, utf8Bytes ((merged.listing tokens).chars merged.format), ""⟩ := by
  have hvalue : (invocation.run host { limit := none }).value =
      ((Command.tokenize request).run settings host.input { limit := none }).value := by
    rw [Invocation.run, Logged.value_bind, hload, hcommand]
  rw [run, hread]
  dsimp only
  rw [Invocation.outcome_of_quiet hquiet, hvalue, Command.run]
  cases sourceText request.source host.input with
  | error failure => rfl
  | ok source =>
      dsimp only
      rw [Logged.value_bind, ListingRequest.value_run_of_unlimited _ rfl]
      have hsource : (request.listing settings source).source = source := rfl
      rw [hsource]
      cases tokenize (request.listing settings source).options source with
      | error e => rfl
      | ok tokens => rfl

/-- The outcome of a scan that succeeds. -/
theorem run_of_tokenize_eq_ok (host : Host)
    (hread : Invocation.read host.env arguments = .ok invocation)
    (hcommand : invocation.command = .tokenize request) (hquiet : invocation.verbose = false)
    (hload : (Settings.load host.directories host.look invocation.config).value = .ok settings)
    {source : String} (hsource : sourceText request.source host.input = .ok source)
    {merged : ListingRequest} (hmerged : request.listing settings source = merged)
    {tokens : List Token} (htokens : tokenize merged.options source = .ok tokens)
    {cs : List Char} (hchars : (merged.listing tokens).chars merged.format = cs)
    (time : String) : run host time arguments = ⟨0, utf8Bytes cs, ""⟩ := by
  rw [run_listing host hread hcommand hquiet hload time, hsource]
  dsimp only
  rw [hmerged, htokens]
  dsimp only
  rw [hchars]

/-- A failure whose message is a line leaves no output, and this line alone. -/
theorem outcome_of_failure {outcome : Outcome} {failure : Failure}
    (hline : isLine ("poxt: " ++ failure.message))
    (h : outcome = ⟨1, [], failureLine failure⟩) :
    outcome.exitCode = 1 ∧ outcome.output = [] ∧
      outcome.errors = "poxt: " ++ failure.message ++ "\n" ∧
      ∀ c ∈ ("poxt: " ++ failure.message).toList, c ∉ lineBreaks := by
  rw [h]
  exact ⟨rfl, rfl, rfl, fun c hc => not_mem_lineBreaks (List.all_eq_true.mp hline c hc)⟩

/-- **All or nothing**: the command that lists a source, without a log and with settings that
can be read, leaves behind the complete listing that is asked for and no message, if there is
a source and it can be scanned.  If not, it leaves no output, and the message is a line of its
own for the failure, whatever characters the source holds. -/
theorem run_all_or_nothing {env : String → Option String} {look : String → FileStatus}
    {directories : UserDirectories}
    (hread : Invocation.read env arguments = .ok invocation)
    (hcommand : invocation.command = .tokenize request) (hquiet : invocation.verbose = false)
    (hload : (Settings.load directories look invocation.config).value = .ok settings)
    {input : List ReadResult} {bytes : ByteArray} (hinput : Gives input bytes none)
    (time : String) :
    let merged (source : String) : ListingRequest :=
      { source
        options :=
          { policy := request.policy.getD settings.scan.policy
            emitEof := request.emitEof || settings.scan.emitEof
            contextWidth := settings.scan.contextWidth }
        format := request.format.getD settings.output.format
        keepBlanks := request.keepBlanks || settings.output.keepBlanks
        stats := request.stats }
    let outcome := run { env, look, directories, input } time arguments
    (∀ source tokens, request.HasSource bytes source →
      tokenize (merged source).options source = .ok tokens →
        outcome.exitCode = 0 ∧ outcome.errors = "" ∧
        outcome.output =
          utf8Bytes (((merged source).listing tokens).chars (merged source).format) ∧
        ((merged source).run { limit := none }).value =
          (.ok ((merged source).shown tokens).length,
            { limit := none, written := outcome.output })) ∧
    ((¬∃ source tokens, request.HasSource bytes source ∧
        tokenize (merged source).options source = .ok tokens) →
      ∃ failure : Failure,
        ((∀ source, ¬request.HasSource bytes source) ∧ failure = .sourceNotText ∨
          ∃ source e, request.HasSource bytes source ∧
            tokenize (merged source).options source = .error e ∧ failure = .lex e) ∧
        outcome.exitCode = 1 ∧ outcome.output = [] ∧
        outcome.errors = "poxt: " ++ failure.message ++ "\n" ∧
        ∀ c ∈ ("poxt: " ++ failure.message).toList, c ∉ lineBreaks) := by
  intro merged outcome
  have hmerged : ∀ source, request.listing settings source = merged source := by
    intro source
    simp only [TokenizeRequest.listing, Bool.or_comm, merged]
  have hrun : outcome = _ :=
    run_listing { env, look, directories, input } hread hcommand hquiet hload time
  simp only [hmerged] at hrun
  constructor
  · intro source tokens hsource htokens
    rw [(sourceText_eq_ok_iff hinput).mpr hsource] at hrun
    dsimp only at hrun
    rw [htokens] at hrun
    rw [hrun, ListingRequest.value_run_of_unlimited _ rfl]
    refine ⟨rfl, rfl, rfl, ?_⟩
    have hmine : (merged source).source = source := rfl
    rw [hmine, htokens]
    rfl
  · intro hnone
    cases hsource : sourceText request.source input with
    | error failure =>
        rw [hsource] at hrun
        obtain rfl := eq_sourceNotText hinput hsource
        refine ⟨.sourceNotText, .inl ⟨fun source h => ?_, rfl⟩,
          outcome_of_failure (by decide) hrun⟩
        rw [(sourceText_eq_ok_iff hinput).mpr h] at hsource
        contradiction
    | ok source =>
        rw [hsource] at hrun
        dsimp only at hrun
        rw [sourceText_eq_ok_iff hinput] at hsource
        cases htokens : tokenize (merged source).options source with
        | ok tokens => exact absurd ⟨source, tokens, hsource, htokens⟩ hnone
        | error e =>
            rw [htokens] at hrun
            exact ⟨.lex e, .inr ⟨source, e, hsource, htokens, rfl⟩,
              outcome_of_failure (isLine_message_lex e) hrun⟩

/-- A line feed that no rule recognises, behind a string with a line separator in it.  No
variable names the home directory, but the account has one. -/
theorem run_all_or_nothing_separator :
    let arguments := ["tokenize", "-wFjson", "\"\u2028\"\n@"]
    let e : LexError := ⟨5, "\"\u2028\"", '\n'⟩
    let directories : UserDirectories := ⟨some "/home/user", some "/home/user/.config"⟩
    let outcome := run { env := fun _ => none, look := fun _ => .absent, directories,
                         input := [] } "" arguments
    tokenize {} "\"\u2028\"\n@" = .error e ∧ outcome.exitCode = 1 ∧ outcome.output = [] ∧
      outcome.errors = "poxt: " ++ (Failure.lex e).message ++ "\n" ∧
      ∀ c ∈ ("poxt: " ++ (Failure.lex e).message).toList, c ∉ lineBreaks := by
  intro arguments e directories outcome
  let request : TokenizeRequest :=
    ⟨some "\"\u2028\"\n@", none, some .json, true, false, false⟩
  have hread : Invocation.read (fun _ => none) arguments =
      .ok ⟨false, false, none, .tokenize request⟩ := rfl
  have hload : (Settings.load directories (fun _ => .absent) none).value = .ok {} := rfl
  have hitems : items {} "\"\u2028\"\n@" =
      [.token ⟨0, "\"\u2028\"", .string⟩, .failure e] := by
    decide +kernel
  have hscan : tokenize {} "\"\u2028\"\n@" = .error e := by rw [tokenize, hitems]; rfl
  have hsource : ∀ {source}, request.HasSource ByteArray.empty source →
      source = "\"\u2028\"\n@" := by
    intro source h
    rw [← sourceText_eq_ok_iff .exhausted] at h
    exact (Except.ok.inj h).symm
  obtain ⟨failure, hfailure, hexit, houtput, herrors, hline⟩ :=
    (run_all_or_nothing hread rfl rfl hload .exhausted "").2 (by
      rintro ⟨source, tokens, hgiven, htokens⟩
      obtain rfl := hsource hgiven
      have hboth : Except.error e = Except.ok tokens := hscan.symm.trans htokens
      contradiction)
  have hlex : failure = .lex e := by
    rcases hfailure with ⟨hnone, -⟩ | ⟨source, e', hgiven, hfailed, rfl⟩
    · exact absurd (.inl ⟨rfl, by decide⟩) (hnone "\"\u2028\"\n@")
    · obtain rfl := hsource hgiven
      have hboth : Except.error e = Except.error e' := hscan.symm.trans hfailed
      rw [Except.error.inj hboth]
  subst hlex
  exact ⟨hscan, hexit, houtput, herrors, hline⟩

end

end CommandLine

end PoxTokens
