import Mathlib.Data.List.Forall2
import Mathlib.Data.List.Nodup
import PoxTokens.CommandLine.Invocation
import PoxTokens.Proofs.SettingsToml

/-!
# PoxTokens.Proofs.ListingFlags

The flags and options of the command that lists a source.  However they are spelled and in
whatever order they are given, each at most once, they are all recorded and change nothing
else (`Invocation.read_asks`).  An option whose value is its own argument is recorded late,
so what one step preserves is said of the record with nothing pending (`Given.settle`).
-/

namespace PoxTokens.CommandLine

/-- Something that is asked of the listing of a source. -/
inductive Ask where
  | policy (policy : Policy)
  | format (format : ListingFormat)
  | keepBlanks
  | emitEof
  | stats
  deriving DecidableEq

namespace Ask

/-- The name behind which it is given. -/
def switch : Ask → Switch
  | policy _ => .choice .policy
  | format _ => .choice .format
  | keepBlanks => .flag .keepBlanks
  | emitEof => .flag .emitEof
  | stats => .flag .stats

/-- The arguments that give a value to an option: behind its long or its short name, as an
argument of its own or together with the name. -/
def choiceSpellings (long short value : String) : List (List String) :=
  [[long, value], [long ++ "=" ++ value], [short, value], [short ++ value]]

/-- The arguments that ask for it. -/
def spellings : Ask → List (List String)
  | policy p => choiceSpellings "--policy" "-p" p.name
  | format f => choiceSpellings "--format" "-F" f.name
  | keepBlanks => [["--keep-whitespace"], ["-w"]]
  | emitEof => [["--eof"]]
  | stats => [["--stats"]]

/-- Puts it on record. -/
def put (given : Given) : Ask → Given
  | policy p => { given with policy := some p }
  | format f => { given with format := some f }
  | keepBlanks => { given with flags := .keepBlanks :: given.flags }
  | emitEof => { given with flags := .emitEof :: given.flags }
  | stats => { given with flags := .stats :: given.flags }

end Ask

/-- What is asked, in one order. -/
def asks (policy : Option Policy) (format : Option ListingFormat)
    (keepBlanks emitEof stats : Bool) : List Ask :=
  (policy.map Ask.policy).toList ++ (format.map Ask.format).toList ++
    (if keepBlanks then [.keepBlanks] else []) ++ (if emitEof then [.emitEof] else []) ++
    (if stats then [.stats] else [])

/-! ## Arguments -/

/-- The level at which they are given. -/
abbrev listingLevel : Level := .command .tokenize

/-- What arguments do to the record, once nothing is pending any more. -/
def Reads (args : List String) (before after : Given) : Prop :=
  ∀ given : Given, given.settle = .ok before →
    ∃ next : Given, next.settle = .ok after ∧
      ∀ rest, listingLevel.readArguments given (args ++ rest) =
        listingLevel.readArguments next rest

/-- In front of two dashes the arguments are read one by one. -/
theorem readArguments_cons (given : Given) {text : String} (h : text ≠ "--")
    (rest : List String) :
    listingLevel.readArguments given (text :: rest) =
      (listingLevel.readArgument given text).bind (listingLevel.readArguments · rest) := by
  rw [Level.readArguments]
  simp only [Level.commandName?, Level.asksHelp, reduceCtorEq, false_and, if_false, h]
  rfl

theorem Given.settle_of_pending {given : Given} (h : given.pending = none) :
    given.settle = .ok given := by
  rw [settle, h]

namespace Reads
variable {before after : Given}

theorem nil (given : Given) : Reads [] given given :=
  fun next h => ⟨next, h, fun _ => rfl⟩

/-- Arguments may be read in two parts. -/
theorem append {args args' : List String} {last : Given} (h : Reads args before after)
    (h' : Reads args' after last) : Reads (args ++ args') before last := by
  intro given hgiven
  obtain ⟨next, hnext, hread⟩ := h given hgiven
  obtain ⟨next', hnext', hread'⟩ := h' next hnext
  refine ⟨next', hnext', fun rest => ?_⟩
  rw [List.append_assoc, hread, hread']

/-- A flag that is new is put on record at once. -/
theorem flag {text : String} {flag : Flag} (htext : text ≠ "--")
    (hname : ∀ given, listingLevel.readArgument given text =
      listingLevel.switchOn given (.flag flag))
    (hpending : before.pending = none) (hnew : flag ∉ before.flags) :
    Reads [text] before { before with flags := flag :: before.flags } := by
  intro given hgiven
  refine ⟨_, Given.settle_of_pending hpending, fun rest => ?_⟩
  rw [List.singleton_append, readArguments_cons given htext, hname, Level.switchOn, hgiven]
  simp [Level.orStop, Given.raise, hnew, bind, Except.bind]

/-- A value that comes together with its name. -/
theorem joined {text value : String} {choice : Choice} (htext : text ≠ "--")
    (hname : ∀ given, listingLevel.readArgument given text = Level.attach given choice value)
    (hpending : after.pending = none) (hchoose : before.choose choice value = .ok after) :
    Reads [text] before after := by
  intro given hgiven
  refine ⟨after, Given.settle_of_pending hpending, fun rest => ?_⟩
  rw [List.singleton_append, readArguments_cons given htext, hname, Level.attach, hgiven]
  simp [Level.orStop, hchoose, bind, Except.bind]

/-- A value as an argument of its own stays pending. -/
theorem apart {text value : String} {choice : Choice} (htext : text ≠ "--")
    (hname : ∀ given, listingLevel.readArgument given text =
      listingLevel.switchOn given (.choice choice))
    (hvalue : value ≠ "--")
    (hplain : ∀ given : Given,
      listingLevel.readArgument { given with pending := some ⟨choice, none⟩ } value =
        .ok { given with pending := some ⟨choice, some value⟩ })
    (hpending : before.pending = none) (hchoose : before.choose choice value = .ok after) :
    Reads [text, value] before after := by
  intro given hgiven
  have hsame : { before with pending := none } = before := by rw [← hpending]
  refine ⟨{ before with pending := some ⟨choice, some value⟩ }, ?_, fun rest => ?_⟩
  · rw [Given.settle]
    dsimp only
    rw [hsame, hchoose]
  · rw [List.cons_append, List.singleton_append, readArguments_cons given htext, hname,
      Level.switchOn, hgiven]
    simp only [Level.orStop, bind, Except.bind]
    rw [readArguments_cons _ hvalue, hplain]
    rfl

end Reads

/-! ## Spellings -/

/-- Behind a short name the reading of short names goes on, but there may be no more. -/
theorem readArgument_short {given : Given} {text : String} {switch : Switch}
    (h : listingLevel.readArgument given text =
      (listingLevel.switchOn given switch).bind (listingLevel.readShort · [])) :
    listingLevel.readArgument given text = listingLevel.switchOn given switch := by
  rw [h]
  cases listingLevel.switchOn given switch <;> rfl

/-- The names and the value are those of an option, however they are spelled. -/
structure IsSpelled (choice : Choice) (long short value : String) : Prop where
  readLong : ∀ given, listingLevel.readArgument given long =
    listingLevel.switchOn given (.choice choice)
  readShort : ∀ given, listingLevel.readArgument given short =
    (listingLevel.switchOn given (.choice choice)).bind (listingLevel.readShort · [])
  readLongJoined : ∀ given, listingLevel.readArgument given (long ++ "=" ++ value) =
    Level.attach given choice value
  readShortJoined : ∀ given, listingLevel.readArgument given (short ++ value) =
    Level.attach given choice value
  readValue : ∀ given : Given,
    listingLevel.readArgument { given with pending := some ⟨choice, none⟩ } value =
      .ok { given with pending := some ⟨choice, some value⟩ }
  not_dashes : "--" ∉ [long, short, value, long ++ "=" ++ value, short ++ value]

/-- The option for the policy is read in each spelling, whichever policy is named. -/
theorem isSpelled_policy (policy : Policy) : IsSpelled .policy "--policy" "-p" policy.name := by
  cases policy <;>
    exact ⟨fun _ => rfl, fun _ => rfl, fun _ => rfl, fun _ => rfl, fun _ => rfl, by decide⟩

theorem isSpelled_format (format : ListingFormat) :
    IsSpelled .format "--format" "-F" format.name := by
  cases format <;>
    exact ⟨fun _ => rfl, fun _ => rfl, fun _ => rfl, fun _ => rfl, fun _ => rfl, by decide⟩

/-- Every spelling of an option records its value. -/
theorem Reads.choice {choice : Choice} {long short value : String} {before after : Given}
    (h : IsSpelled choice long short value) (hbefore : before.pending = none)
    (hafter : after.pending = none) (hchoose : before.choose choice value = .ok after)
    {args : List String} (hargs : args ∈ Ask.choiceSpellings long short value) :
    Reads args before after := by
  have hshort := fun given => readArgument_short (h.readShort given)
  have hwords := h.not_dashes
  simp only [List.mem_cons, List.not_mem_nil, or_false, not_or] at hwords
  obtain ⟨hlong', hshort', hvalue', hlongJoined', hshortJoined'⟩ := hwords
  simp only [Ask.choiceSpellings, List.mem_cons, List.not_mem_nil, or_false] at hargs
  rcases hargs with rfl | rfl | rfl | rfl
  · exact .apart (Ne.symm hlong') h.readLong (Ne.symm hvalue') h.readValue hbefore hchoose
  · exact .joined (Ne.symm hlongJoined') h.readLongJoined hafter hchoose
  · exact .apart (Ne.symm hshort') hshort (Ne.symm hvalue') h.readValue hbefore hchoose
  · exact .joined (Ne.symm hshortJoined') h.readShortJoined hafter hchoose

/-! ## The record -/

/-- The record holds what was asked and the source, and nothing else. -/
structure Records (given : Given) (asked : List Ask) (source : Option String) : Prop where
  policy : ∀ p, given.policy = some p ↔ .policy p ∈ asked
  format : ∀ f, given.format = some f ↔ .format f ∈ asked
  flags : ∀ flag, flag ∈ given.flags ↔ ∃ ask ∈ asked, ask.switch = .flag flag
  config : given.config = none
  source : given.source = source
  pending : given.pending = none

theorem records_nil : Records {} [] none where
  policy := by simp
  format := by simp
  flags := by simp
  config := rfl
  source := rfl
  pending := rfl

/-- Only the flag that is asked is raised. -/
theorem Ask.mem_flags_put {ask : Ask} {given : Given} {flag : Flag} :
    flag ∈ (ask.put given).flags ↔ flag ∈ given.flags ∨ ask.switch = .flag flag := by
  cases ask <;> simp [put, switch, or_comm, eq_comm]

/-- What is asked for the first time is put on record beside the rest. -/
theorem Records.put {given : Given} {asked : List Ask} {source : Option String}
    (h : Records given asked source) {ask : Ask} (hnew : ask.switch ∉ asked.map Ask.switch) :
    Records (ask.put given) (asked ++ [ask]) source where
  policy p := by
    cases ask with
    | policy q =>
        have hold : .policy p ∉ asked := fun hmem => hnew (List.mem_map.mpr ⟨_, hmem, rfl⟩)
        simp [Ask.put, hold, eq_comm]
    | _ => simp [Ask.put, h.policy]
  format f := by
    cases ask with
    | format g =>
        have hold : .format f ∉ asked := fun hmem => hnew (List.mem_map.mpr ⟨_, hmem, rfl⟩)
        simp [Ask.put, hold, eq_comm]
    | _ => simp [Ask.put, h.format]
  flags flag := by
    rw [Ask.mem_flags_put, h.flags]
    simp [or_and_right, exists_or]
  config := by cases ask <;> exact h.config
  source := by cases ask <;> exact h.source
  pending := by cases ask <;> exact h.pending

/-- The source changes nothing else on record. -/
theorem Records.withSource {given : Given} {asked : List Ask} {old : Option String}
    (h : Records given asked old) (source : Option String) :
    Records { given with source } asked source where
  policy := h.policy
  format := h.format
  flags := h.flags
  config := h.config
  source := rfl
  pending := h.pending

/-- **One step**: what is asked once more is put on record, however it is spelled. -/
theorem Records.reads {given : Given} {asked : List Ask} {source : Option String}
    (h : Records given asked source) {ask : Ask} (hnew : ask.switch ∉ asked.map Ask.switch)
    {args : List String} (hargs : args ∈ ask.spellings) : Reads args given (ask.put given) := by
  have hafter : (ask.put given).pending = none := (h.put hnew).pending
  have hflag : ∀ flag, ask.switch = .flag flag → flag ∉ given.flags := by
    intro flag hswitch hmem
    obtain ⟨other, hother, heq⟩ := (h.flags flag).mp hmem
    exact hnew (List.mem_map.mpr ⟨other, hother, heq.trans hswitch.symm⟩)
  cases ask with
  | policy p =>
      have hnone : given.policy = none := by
        rw [Option.eq_none_iff_forall_ne_some]
        exact fun q hq => hnew (List.mem_map.mpr ⟨_, (h.policy q).mp hq, rfl⟩)
      refine .choice (isSpelled_policy p) h.pending hafter ?_ hargs
      rw [Given.choose, Policy.ofName?_name, hnone]
      rfl
  | format f =>
      have hnone : given.format = none := by
        rw [Option.eq_none_iff_forall_ne_some]
        exact fun g hg => hnew (List.mem_map.mpr ⟨_, (h.format g).mp hg, rfl⟩)
      refine .choice (isSpelled_format f) h.pending hafter ?_ hargs
      rw [Given.choose, ListingFormat.ofName?_name, hnone]
      rfl
  | keepBlanks =>
      simp only [Ask.spellings, List.mem_cons, List.not_mem_nil, or_false] at hargs
      rcases hargs with rfl | rfl
      · exact .flag (by decide) (fun given => rfl) h.pending (hflag _ rfl)
      · exact .flag (by decide) (fun given => readArgument_short rfl) h.pending (hflag _ rfl)
  | emitEof =>
      rw [List.mem_singleton.mp hargs]
      exact .flag (by decide) (fun given => rfl) h.pending (hflag _ rfl)
  | stats =>
      rw [List.mem_singleton.mp hargs]
      exact .flag (by decide) (fun given => rfl) h.pending (hflag _ rfl)

/-- **The run**: everything that is asked, each thing at most once, is put on record. -/
theorem Records.exists_reads {given : Given} {asked new : List Ask} {source : Option String}
    (h : Records given asked source) (hnew : ((asked ++ new).map Ask.switch).Nodup)
    {args : List (List String)}
    (hargs : List.Forall₂ (fun ask args => args ∈ ask.spellings) new args) :
    ∃ after, Reads args.flatten given after ∧ Records after (asked ++ new) source := by
  induction hargs generalizing given asked with
  | nil => exact ⟨given, .nil given, by rwa [List.append_nil]⟩
  | @cons ask words new args hwords _ ih =>
      have hask : ask.switch ∉ asked.map Ask.switch := by
        rw [List.map_append, List.map_cons, List.nodup_middle, List.nodup_cons] at hnew
        exact fun hmem => hnew.1 (List.mem_append_left _ hmem)
      obtain ⟨after, hreads, hrecords⟩ := ih (h.put hask) (by simpa using hnew)
      rw [List.append_assoc] at hrecords
      exact ⟨after, (h.reads hask hwords).append hreads, hrecords⟩

/-! ## The source -/

/-- The arguments behind the flags by which a source is given, if any is: an argument that a
dash does not begin, unless it is the whole of it, or any text behind two dashes. -/
inductive SourceArguments : List String → Option String → Prop where
  | missing : SourceArguments [] none
  | plain {text : String} (h : ∀ c rest, text.toList ≠ '-' :: c :: rest) :
      SourceArguments [text] (some text)
  | behindDashes (text : String) : SourceArguments ["--", text] (some text)

/-- The marker is no name, though a dash begins it. -/
theorem SourceArguments.marker : SourceArguments ["-"] (some "-") := .plain (by simp)

section
variable {given after : Given}

/-- A record that can be settled has no option that waits for its value. -/
theorem Given.awaitsValue_of_settle (h : given.settle = .ok after) :
    given.awaitsValue = none := by
  rw [settle] at h
  rw [awaitsValue]
  split at h
  · next hpending => rw [hpending]
  · contradiction
  · next hpending => rw [hpending]

/-- An argument that is no name is the source, once nothing is pending any more. -/
theorem readPlain_of_settle (hsettle : given.settle = .ok after) (hsource : after.source = none)
    (text : String) :
    listingLevel.readPlain given text = .ok { after with source := some text } := by
  rw [Level.readPlain, hsettle]
  exact if_pos ⟨rfl, hsource⟩

/-- An argument that a dash does not begin is such a source. -/
theorem readArgument_plain (hsettle : given.settle = .ok after) (hsource : after.source = none)
    {text : String} (htext : ∀ c rest, text.toList ≠ '-' :: c :: rest) :
    listingLevel.readArgument given text = .ok { after with source := some text } := by
  rw [Level.readArgument]
  split
  · next hdashes => exact absurd hdashes (htext _ _)
  · next hdash => exact absurd hdash (htext _ _)
  · rw [Given.awaitsValue_of_settle hsettle]
    exact readPlain_of_settle hsettle hsource text

/-- **The last step**: the source is put on record, however it is given. -/
theorem SourceArguments.readArguments {args : List String} {source : Option String}
    (h : SourceArguments args source) (hsettle : given.settle = .ok after)
    (hsource : after.source = none) (hpending : after.pending = none) :
    ∃ inner : Given, inner.settle = .ok { after with source } ∧
      listingLevel.readArguments given args = .ok (inner, none) := by
  cases h with
  | missing =>
      have hsame : { after with source := none } = after := by rw [← hsource]
      exact ⟨given, hsettle.trans (congrArg _ hsame.symm), rfl⟩
  | @plain text htext =>
      have hdashes : text ≠ "--" := by
        rintro rfl
        exact htext _ _ rfl
      refine ⟨_, Given.settle_of_pending hpending, ?_⟩
      rw [readArguments_cons given hdashes, readArgument_plain hsettle hsource htext]
      rfl
  | behindDashes text =>
      refine ⟨{ after with source := some text }, Given.settle_of_pending hpending, ?_⟩
      have hfold : [text].foldlM listingLevel.readPlain given =
          .ok { after with source := some text } := by
        rw [List.foldlM_cons, readPlain_of_settle hsettle hsource]
        rfl
      have hdashes : listingLevel.readArguments given ["--", text] =
          ([text].foldlM listingLevel.readPlain given).map fun last => (last, none) := rfl
      rw [hdashes, hfold]
      rfl

end

/-! ## The command line -/

section
variable {after : Given} {asked : List Ask} {source : Option String}
  (env : String → Option String)

/-- A flag that is none of the listing's is as if nothing had been given. -/
theorem Records.flagValue_eq (h : Records after asked source) {flag : Flag}
    (hflag : ∀ ask : Ask, ask.switch ≠ .flag flag) :
    flagValue env after flag = flagValue env {} flag := by
  have hnone : flag ∉ after.flags := by
    rw [h.flags]
    rintro ⟨ask, -, heq⟩
    exact hflag ask heq
  rw [flagValue, flagValue, if_neg hnone, if_neg (by simp)]

/-- What both levels know is as if nothing had been given. -/
theorem Records.finishLevel_eq (h : Records after asked source) {given : Given}
    (hsettle : given.settle = .ok after) :
    finishLevel env given = (finishLevel env {}).map fun values => (after, values.2) := by
  have hverbose : flagValue env after .verbose = flagValue env {} .verbose :=
    h.flagValue_eq env fun ask => by cases ask <;> simp [Ask.switch]
  have hcolour : flagValue env after .noColour = flagValue env {} .noColour :=
    h.flagValue_eq env fun ask => by cases ask <;> simp [Ask.switch]
  have hconfig : configValue env after = configValue env {} := by
    rw [configValue, configValue, h.config]
  have hnothing : Given.settle {} = .ok {} := rfl
  rw [finishLevel, finishLevel, hsettle, hnothing]
  simp only [bind, Except.bind, hverbose, hcolour, hconfig]
  cases flagValue env {} .verbose with
  | error e => rfl
  | ok verbose =>
      cases configValue env {} with
      | error e => rfl
      | ok config => cases flagValue env {} .noColour <;> rfl

end

/-- Nothing is asked twice. -/
theorem nodup_switch_asks (policy : Option Policy) (format : Option ListingFormat)
    (keepBlanks emitEof stats : Bool) :
    ((asks policy format keepBlanks emitEof stats).map Ask.switch).Nodup := by
  cases policy <;> cases format <;> cases keepBlanks <;> cases emitEof <;> cases stats <;>
    simp [asks, Ask.switch]

/-- The record makes the command that asks for the same, whatever the order. -/
theorem Records.command_eq {after : Given} {policy : Option Policy}
    {format : Option ListingFormat} {keepBlanks emitEof stats : Bool} {asked : List Ask}
    (hasked : asked.Perm (asks policy format keepBlanks emitEof stats))
    {source : Option String} (h : Records after asked source) :
    after.command .tokenize =
      .tokenize { source, policy, format, keepBlanks, emitEof, stats } := by
  have hpolicy : after.policy = policy := by
    ext p
    rw [h.policy, hasked.mem_iff]
    simp [asks]
  have hformat : after.format = format := by
    ext f
    rw [h.format, hasked.mem_iff]
    simp [asks]
  have hflag : ∀ flag, after.flags.contains flag =
      (asks policy format keepBlanks emitEof stats).any (·.switch = .flag flag) := by
    intro flag
    rw [Bool.eq_iff_iff, List.contains_iff_mem, h.flags, List.any_eq_true]
    simp [hasked.mem_iff]
  have hkeep : after.flags.contains .keepBlanks = keepBlanks := by
    rw [hflag]
    cases keepBlanks <;> simp [asks, Ask.switch]
  have hemit : after.flags.contains .emitEof = emitEof := by
    rw [hflag]
    cases emitEof <;> simp [asks, Ask.switch]
  have hstats : after.flags.contains .stats = stats := by
    rw [hflag]
    cases stats <;> simp [asks, Ask.switch]
  rw [Given.command, h.source, hpolicy, hformat, hkeep, hemit, hstats]

/-- The command line of the listing is read at its own level; nothing is given to the program
itself. -/
theorem Invocation.read_tokenize {args : List String} {inner : Given}
    (h : listingLevel.readArguments {} args = .ok (inner, none)) (env : String → Option String) :
    read env ("tokenize" :: args) = (do
      let (inner, innerValues) ← Level.orStop (finishLevel env inner)
      let (_, outerValues) ← Level.orStop (finishLevel env {})
      pure
        { verbose := outerValues.verbose.merge innerValues.verbose
          noColour := outerValues.noColour.merge innerValues.noColour
          config := innerValues.config.1.or (outerValues.config.1.or
            (innerValues.config.2.or outerValues.config.2))
          command := inner.command .tokenize }) := by
  have houter : Level.program.readArguments {} ("tokenize" :: args) =
      .ok ({}, some (.tokenize, args)) := rfl
  rw [read, houter]
  simp only [bind, Except.bind]
  rw [h]

/-- What is asked of the listing, and the source, change the command and nothing else. -/
theorem Invocation.read_asks {policy : Option Policy} {format : Option ListingFormat}
    {keepBlanks emitEof stats : Bool} {asked : List Ask}
    (hasked : asked.Perm (asks policy format keepBlanks emitEof stats))
    {args : List (List String)}
    (hargs : List.Forall₂ (fun ask args => args ∈ ask.spellings) asked args)
    {sourceArgs : List String} {source : Option String}
    (hsource : SourceArguments sourceArgs source) (env : String → Option String) :
    read env ("tokenize" :: (args.flatten ++ sourceArgs)) =
      (read env ["tokenize"]).map fun invocation =>
        { invocation with
          command := .tokenize { source, policy, format, keepBlanks, emitEof, stats } } := by
  have hnodup := (hasked.map Ask.switch).nodup_iff.mpr
    (nodup_switch_asks policy format keepBlanks emitEof stats)
  obtain ⟨after, hreads, hrecords⟩ := records_nil.exists_reads hnodup hargs
  -- an option may still be pending behind the flags, and is settled when the source is read
  obtain ⟨given, hsettle, hgiven⟩ := hreads {} rfl
  obtain ⟨inner, hinner, hall⟩ :=
    hsource.readArguments hsettle hrecords.source hrecords.pending
  rw [← hgiven] at hall
  have hwith := hrecords.withSource source
  have hnothing : listingLevel.readArguments {} [] = .ok ({}, none) := rfl
  have hcommand := hwith.command_eq hasked
  rw [read_tokenize hall, read_tokenize hnothing, hwith.finishLevel_eq env hinner]
  cases finishLevel env {} with
  | error e => rfl
  | ok values =>
      simp only [Except.map, Level.orStop, bind, Except.bind, hcommand]
      rfl

end PoxTokens.CommandLine
