import PoxTokens.Proofs.CommandRun
import PoxTokens.Proofs.ListingFlags

/-!
# PoxTokens.Proofs.FlagsOverSettings

Flags win over settings, and nothing depends on which of both asks for a listing: what the
flags ask for may as well be written to the file of settings (`run_flags_eq_settings`).  Both
ways lead to the same request, since the flags reach the command as they are given and the
settings are read back as they were written.
-/

namespace PoxTokens

/-! ## Settings in the working directory -/

/-- The file in the working directory is the first one that is looked for. -/
theorem Settings.load_of_file {look : String → FileStatus} {settings : Settings} {text : String}
    (hfile : look "poxt.toml" = .file text.toUTF8) (htext : settings.toToml? = some text)
    (directories : UserDirectories) :
    load directories look none = ⟨[.settingsLoaded "poxt.toml"], .ok settings⟩ := by
  have hpaths : ∃ others, settingsPaths directories = "poxt.toml" :: others := ⟨_, rfl⟩
  obtain ⟨others, hpaths⟩ := hpaths
  have hpresent : (look "poxt.toml").isPresent = true := by
    rw [hfile]
    rfl
  have hstatus : ofStatus "poxt.toml" (look "poxt.toml") = .ok settings := by
    rw [hfile, ofStatus, fromUTF8?_eq_some_iff.mpr rfl]
    exact ofToml_toToml? htext
  rw [load, loadFirst, hpaths, List.find?_cons, hpresent]
  dsimp only
  rw [loadFrom, hstatus]

namespace CommandLine

/-! ## Requests -/

/-- A command depends on what is asked only through the listing that results. -/
theorem Command.run_congr {request other : TokenizeRequest} {settings merged : Settings}
    (hsource : request.source = other.source)
    (hlisting : ∀ source, request.listing settings source = other.listing merged source)
    (input : List ReadResult) (sink : Sink) :
    (Command.tokenize request).run settings input sink =
      (Command.tokenize other).run merged input sink := by
  simp only [run, hsource, hlisting]

/-- A finished level says of the path what its record and the variable say. -/
theorem configValue_of_finishLevel {env : String → Option String} {given settled : Given}
    {values : Given × SharedValues} (hsettle : given.settle = .ok settled)
    (h : finishLevel env given = .ok values) : configValue env settled = .ok values.2.config := by
  rw [finishLevel, hsettle] at h
  simp only [bind, Except.bind] at h
  cases hverbose : flagValue env settled .verbose with
  | error e => simp [hverbose] at h
  | ok verbose =>
      cases hconfig : configValue env settled with
      | error e => simp [hverbose, hconfig] at h
      | ok config =>
          cases hcolour : flagValue env settled .noColour with
          | error e => simp [hverbose, hconfig, hcolour] at h
          | ok colour =>
              simp only [hverbose, hconfig, hcolour] at h
              rw [← Except.ok.inj h]

/-- Without a flag and a variable for it, there is no path of the settings. -/
theorem Invocation.config_eq_none {env : String → Option String} {invocation : Invocation}
    (h : read env ["tokenize"] = .ok invocation) (henv : env "POXT_CONFIG" = none) :
    invocation.config = none := by
  have hnothing : listingLevel.readArguments {} [] = .ok ({}, none) := rfl
  have hnone : configValue env {} = .ok (none, none) := by
    rw [configValue, configVariable, henv]
  rw [read_tokenize hnothing] at h
  cases hvalues : finishLevel env {} with
  | error e =>
      rw [hvalues] at h
      contradiction
  | ok values =>
      have hconfig := configValue_of_finishLevel rfl hvalues
      rw [hnone] at hconfig
      rw [hvalues] at h
      rw [← Except.ok.inj h]
      dsimp only
      rw [← Except.ok.inj hconfig]
      rfl

/-- Without a source of its own, a command line asks for the input. -/
theorem Invocation.read_flags {policy : Option Policy} {format : Option ListingFormat}
    {keepBlanks emitEof stats : Bool} {asked : List Ask}
    (hasked : asked.Perm (asks policy format keepBlanks emitEof stats))
    {args : List (List String)}
    (hargs : List.Forall₂ (fun ask args => args ∈ ask.spellings) asked args)
    (env : String → Option String) :
    read env ("tokenize" :: args.flatten) =
      (read env ["tokenize"]).map fun invocation =>
        { invocation with
          command := .tokenize ⟨none, policy, format, keepBlanks, emitEof, stats⟩ } := by
  have hread := read_asks hasked hargs .missing env
  rwa [List.append_nil] at hread

/-- Asking for the counts, or for nothing, leaves all else to the settings. -/
theorem Invocation.read_stats (env : String → Option String) (stats : Bool) :
    read env ("tokenize" :: if stats then ["--stats"] else []) =
      (read env ["tokenize"]).map fun invocation =>
        { invocation with command := .tokenize ⟨none, none, none, false, false, stats⟩ } := by
  cases stats with
  | true =>
      have hasked : [Ask.stats].Perm (asks none none false false true) := .refl _
      have hargs : List.Forall₂ (fun ask args => args ∈ Ask.spellings ask) [Ask.stats]
          [["--stats"]] := .cons List.mem_cons_self .nil
      exact read_flags hasked hargs env
  | false =>
      have hasked : [].Perm (asks none none false false false) := .refl _
      exact read_flags hasked .nil env

/-- **Flags and settings are interchangeable, and flags win**: whatever is asked of the
listing of the input, in whatever order and spelling, the outcome is the same if instead the
file of settings in the working directory asks for it, and only the counts are asked for on
the command line.  No variable must name another file, since that one would be read then. -/
theorem run_flags_eq_settings {settings : Settings}
    (hwidth : settings.scan.contextWidth ≤ 9223372036854775807) (policy : Option Policy)
    (format : Option ListingFormat) (keepBlanks emitEof stats : Bool) :
    let merged : Settings :=
      { scan :=
          { policy := policy.getD settings.scan.policy
            emitEof := emitEof || settings.scan.emitEof
            contextWidth := settings.scan.contextWidth }
        output :=
          { format := format.getD settings.output.format
            keepBlanks := keepBlanks || settings.output.keepBlanks } }
    ∃ text mergedText, settings.toToml? = some text ∧ merged.toToml? = some mergedText ∧
      ∀ {env : String → Option String} {look mergedLook : String → FileStatus}
        {asked : List Ask} {args : List (List String)} (directories : UserDirectories)
        (input : List ReadResult) (time : String),
        env "POXT_CONFIG" = none →
        look "poxt.toml" = .file text.toUTF8 → mergedLook "poxt.toml" = .file mergedText.toUTF8 →
        asked.Perm (asks policy format keepBlanks emitEof stats) →
        List.Forall₂ (fun ask args => args ∈ ask.spellings) asked args →
          run { env, look, directories, input } time ("tokenize" :: args.flatten) =
            run { env, look := mergedLook, directories, input } time
              ("tokenize" :: if stats then ["--stats"] else []) := by
  intro merged
  have hbound : settings.scan.contextWidth < Toml.integerBound :=
    Nat.lt_of_le_of_lt hwidth (by decide)
  have htext : settings.toToml? = some (String.ofList settings.tomlChars) := if_pos hbound
  have hmergedText : merged.toToml? = some (String.ofList merged.tomlChars) := if_pos hbound
  refine ⟨_, _, htext, hmergedText, ?_⟩
  intro env look mergedLook asked args directories input time henv hfile hmergedFile hasked hargs
  have hread := Invocation.read_flags hasked hargs env
  rw [run, run, hread, Invocation.read_stats]
  cases hbare : Invocation.read env ["tokenize"] with
  | error stop => rfl
  | ok invocation =>
      have hconfig := Invocation.config_eq_none hbare henv
      let merging : TokenizeRequest := ⟨none, policy, format, keepBlanks, emitEof, stats⟩
      let counting : TokenizeRequest := ⟨none, none, none, false, false, stats⟩
      have hlisting : ∀ source,
          merging.listing settings source = counting.listing merged source := by
        intro source
        simp [TokenizeRequest.listing, merging, counting, merged, Bool.or_comm]
      have hsource : merging.source = counting.source := rfl
      have hcommand := Command.run_congr hsource hlisting input { limit := none }
      have hrun : Invocation.run { invocation with command := .tokenize merging }
            { env, look, directories, input } { limit := none } =
          Invocation.run { invocation with command := .tokenize counting }
            { env, look := mergedLook, directories, input } { limit := none } := by
        rw [Invocation.run, Invocation.run, hconfig, Settings.load_of_file hfile htext,
          Settings.load_of_file hmergedFile hmergedText]
        exact congrArg (Logged.bind ⟨[.settingsLoaded "poxt.toml"], ()⟩ fun _ => ·) hcommand
      change Invocation.outcome { invocation with command := .tokenize merging } _ time =
        Invocation.outcome { invocation with command := .tokenize counting } _ time
      rw [Invocation.outcome, Invocation.outcome, hrun]

/-- Default settings and flags in an order and spellings of their own.  They have an effect:
the blanks are listed, and the two characters of `!=` are cut apart. -/
theorem run_flags_eq_settings_firstMatch :
    let merged : Settings := { scan := { policy := .firstMatch }, output := { keepBlanks := true } }
    let host (text : String) : Host :=
      { env := fun _ => none
        look := FileTree.look ⟨[(["cwd", "poxt.toml"], text.toUTF8)], []⟩ ["cwd"]
        directories := ⟨none, none⟩
        input := [.ok " !=".toUTF8] }
    let output :=
      "   0 WhiteSpace   \" \" @0\n   1 Bang         \"!\" @1\n   2 Equal        \"=\" @2\n" ++
      "\nWhiteSpace   1\nBang         1\nEqual        1\n"
    ∃ text mergedText, Settings.toToml? {} = some text ∧ merged.toToml? = some mergedText ∧
      run (host text) "" ["tokenize", "--stats", "-w", "--policy=first-match"] =
        run (host mergedText) "" ["tokenize", "--stats"] ∧
      run (host mergedText) "" ["tokenize", "--stats"] = ⟨0, utf8Bytes output.toList, ""⟩ := by
  intro merged host output
  have hwidth : ({} : Settings).scan.contextWidth ≤ 9223372036854775807 := by decide
  obtain ⟨text, mergedText, htext, hmerged, hrun⟩ :=
    run_flags_eq_settings hwidth (some .firstMatch) none true false true
  have hperm : [Ask.stats, .keepBlanks, .policy .firstMatch].Perm
      (asks (some .firstMatch) none true false true) := by decide
  have hargs : List.Forall₂ (fun ask args => args ∈ Ask.spellings ask)
      [.stats, .keepBlanks, .policy .firstMatch]
      [["--stats"], ["-w"], ["--policy=first-match"]] :=
    .cons (by decide) (.cons (by decide) (.cons (by decide) .nil))
  have hlook : ∀ text, (host text).look "poxt.toml" = .file text.toUTF8 := by
    intro text
    have hempty : "poxt.toml".isEmpty = false := by decide
    have hrelative : "poxt.toml".startsWith "/" = false := by decide +kernel
    have hnames : FileTree.names "poxt.toml" = ["poxt.toml"] := by decide +kernel
    dsimp only [host]
    rw [FileTree.look, hempty, hrelative, hnames]
    rfl
  have hsame : run (host text) "" ["tokenize", "--stats", "-w", "--policy=first-match"] =
      run (host mergedText) "" ["tokenize", "--stats"] :=
    hrun _ _ "" rfl (hlook _) (hlook _) hperm hargs
  refine ⟨text, mergedText, htext, hmerged, hsame, ?_⟩
  let request : TokenizeRequest := ⟨none, none, none, false, false, true⟩
  let listed : ListingRequest := ⟨" !=", { policy := .firstMatch }, .text, true, true⟩
  let tokens : List Token := [⟨0, " ", .whiteSpace⟩, ⟨1, "!", .bang⟩, ⟨2, "=", .equal⟩]
  have hread : Invocation.read (host mergedText).env ["tokenize", "--stats"] =
      .ok ⟨false, false, none, .tokenize request⟩ := rfl
  have hload : (Settings.load ⟨none, none⟩ (host mergedText).look none).value = .ok merged := by
    rw [Settings.load_of_file (hlook mergedText) hmerged]
    rfl
  have hsource : sourceText none (host mergedText).input = .ok " !=" := by
    have htrims : dropLineBreak " !=".toList = " !=".toList := by decide
    refine (inputText_eq_ok_iff (gives_singleton _)).mpr ⟨" !=", rfl, ?_⟩
    rw [htrims, String.ofList_toList]
  have hitems : items { policy := .firstMatch } " !=" = tokens.map Item.token := by
    decide +kernel
  have hscan : tokenize { policy := .firstMatch } " !=" = .ok tokens := by
    rw [tokenize, hitems]
    rfl
  have hrows : (listed.listing tokens).chars .text = output.toList := by decide +kernel
  have hlisted : request.listing merged " !=" = listed := rfl
  exact run_of_tokenize_eq_ok _ hread rfl rfl hload hsource hlisted hscan hrows ""

end CommandLine

end PoxTokens
