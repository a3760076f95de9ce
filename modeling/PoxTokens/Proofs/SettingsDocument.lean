import Mathlib.Data.List.Nodup
import PoxTokens.Proofs.TomlLayout
import PoxTokens.Settings.Toml

/-!
# PoxTokens.Proofs.SettingsDocument

Documents that say a part of the settings.  Each entry of such a document is a setting, or a key
that is no setting of its table; its tables have different names, and so have the entries of each
table.  What is missing has its default, whether the key or the whole table is missing, and
neither the order nor what is no setting makes a difference (`Settings.ofToml_document`).
-/

namespace PoxTokens

open Toml (Table Value Written)

/-! ## Settings one by one -/

/-- A policy is read back from the name under which it is stored. -/
theorem Policy.ofStoredName?_storedName (policy : Policy) :
    ofStoredName? policy.storedName = some policy := by
  rw [ofStoredName?_eq_ofName?, storedName_eq_name, ofName?_name]

/-- A format is read back from the name under which it is stored. -/
theorem ListingFormat.ofStoredName?_storedName (format : ListingFormat) :
    ofStoredName? format.storedName = some format := by
  rw [ofStoredName?_eq_ofName?, storedName_eq_name, ofName?_name]

/-- One of the settings, with its value. -/
inductive Setting where
  | policy (policy : Policy)
  | emitEof (emitEof : Bool)
  | contextWidth (contextWidth : Nat)
  | format (format : ListingFormat)
  | keepBlanks (keepBlanks : Bool)
  deriving DecidableEq, Repr

namespace Setting

/-- The table where a setting stands. -/
def tableName : Setting → String
  | policy .. | emitEof .. | contextWidth .. => "scan"
  | format .. | keepBlanks .. => "output"

/-- The key of a setting in its table. -/
def key : Setting → String
  | policy .. => "policy"
  | emitEof .. => "emit_eof"
  | contextWidth .. => "context_width"
  | format .. => "format"
  | keepBlanks .. => "keep_whitespace"

/-- What a setting is apart from its value. -/
def place (setting : Setting) : String × String := (setting.tableName, setting.key)

/-- The value of a setting in a document. -/
def value : Setting → Value
  | policy p => .string p.storedName
  | emitEof b => .boolean b
  | contextWidth n => .integer n
  | format f => .string f.storedName
  | keepBlanks b => .boolean b

/-- The settings where nothing else is said. -/
def defaults : List Setting :=
  [policy .longest, emitEof false, contextWidth 40, format .text, keepBlanks false]

end Setting

/-- Replaces a scan option. -/
def ScanOptions.put (options : ScanOptions) : Setting → ScanOptions
  | .policy policy => { options with policy }
  | .emitEof emitEof => { options with emitEof }
  | .contextWidth contextWidth => { options with contextWidth }
  | _ => options

/-- Replaces an output setting. -/
def OutputSettings.put (output : OutputSettings) : Setting → OutputSettings
  | .format format => { output with format }
  | .keepBlanks keepBlanks => { output with keepBlanks }
  | _ => output

namespace Settings
variable {settings settings' : Settings} {setting setting' : Setting} {new : List Setting}

/-- Replaces one setting. -/
def put (settings : Settings) (setting : Setting) : Settings :=
  { scan := settings.scan.put setting, output := settings.output.put setting }

/-- Is the setting as it is here? -/
def Has (settings : Settings) (setting : Setting) : Prop := settings.put setting = settings

/-- A setting that is put replaces the one in its place and no other. -/
theorem has_put_iff : (settings.put setting).Has setting' ↔
    setting' = setting ∨ setting'.place ≠ setting.place ∧ settings.Has setting' := by
  obtain ⟨⟨policy, emitEof, contextWidth⟩, ⟨format, keepBlanks⟩⟩ := settings
  cases setting <;> cases setting' <;>
    simp [Has, put, ScanOptions.put, OutputSettings.put, Setting.place, Setting.tableName,
      Setting.key, eq_comm]

theorem has_default_iff : ({} : Settings).Has setting ↔ setting ∈ Setting.defaults := by
  cases setting <;>
    simp [Has, put, ScanOptions.put, OutputSettings.put, Setting.defaults, eq_comm]

/-- Of settings at different places, each one lasts. -/
theorem has_foldl_put_iff (h : new.Pairwise (·.place ≠ ·.place)) :
    (new.foldl put settings).Has setting ↔
      setting ∈ new ∨ (∀ s ∈ new, s.place ≠ setting.place) ∧ settings.Has setting := by
  induction new generalizing settings with
  | nil => simp
  | cons first new ih =>
      obtain ⟨hfirst, hnew⟩ := List.pairwise_cons.mp h
      rw [List.foldl_cons, ih hnew, has_put_iff, List.mem_cons, List.forall_mem_cons]
      constructor
      · rintro (hmem | ⟨hother, rfl | ⟨hplace, hhas⟩⟩)
        · exact .inl (.inr hmem)
        · exact .inl (.inl rfl)
        · exact .inr ⟨⟨hplace.symm, hother⟩, hhas⟩
      · rintro ((rfl | hmem) | ⟨⟨hplace, hother⟩, hhas⟩)
        · exact .inr ⟨fun s hs => (hfirst s hs).symm, .inl rfl⟩
        · exact .inl hmem
        · exact .inr ⟨hother, .inr ⟨hplace.symm, hhas⟩⟩

/-- Settings are known by what they have. -/
theorem eq_of_has (h : ∀ setting, settings.Has setting ↔ settings'.Has setting) :
    settings = settings' := by
  obtain ⟨⟨policy, emitEof, contextWidth⟩, ⟨format, keepBlanks⟩⟩ := settings
  have hpolicy := (h (.policy policy)).mp rfl
  have hemit := (h (.emitEof emitEof)).mp rfl
  have hwidth := (h (.contextWidth contextWidth)).mp rfl
  have hformat := (h (.format format)).mp rfl
  have hkeep := (h (.keepBlanks keepBlanks)).mp rfl
  rw [← hpolicy, ← hemit, ← hwidth, ← hformat, ← hkeep]
  rfl

/-- Settings for the scan and for the output are put independently of each other. -/
theorem foldl_put (settings : Settings) (new : List Setting) :
    new.foldl put settings =
      { scan := new.foldl ScanOptions.put settings.scan
        output := new.foldl OutputSettings.put settings.output } := by
  induction new generalizing settings with
  | nil => rfl
  | cons setting new ih => exact ih (settings.put setting)

end Settings

/-! ## Documents -/

/-- The keys of the settings in a table. -/
def settingKeys : String → List String
  | "scan" => ["policy", "emit_eof", "context_width"]
  | "output" => ["format", "keep_whitespace"]
  | _ => []

/-- An entry of a table. -/
inductive Entry where
  | setting (setting : Setting)
  /-- A key that is no setting of its table, with any value. -/
  | other (key : String) (value : Value)

namespace Entry

def key : Entry → String
  | setting s => s.key
  | other key _ => key

def value : Entry → Value
  | setting s => s.value
  | other _ value => value

/-- The setting that an entry is, if it is one. -/
def setting? : Entry → Option Setting
  | setting s => some s
  | other .. => none

/-- May the entry stand in the table of this name? -/
def Fits (name : String) : Entry → Prop
  | setting s => s.tableName = name
  | other key _ => key ∉ settingKeys name

end Entry

/-- A table of a document, with entries of different keys. -/
structure Section where
  name : String
  entries : List Entry
  nodup : (entries.map Entry.key).Nodup
  fits : ∀ entry ∈ entries, entry.Fits name

/-- Tables of different names. -/
structure Document where
  sections : List Section
  nodup : (sections.map Section.name).Nodup

/-- Entries as a table. -/
def entryTable (entries : List Entry) : Table := entries.map fun entry => (entry.key, entry.value)

namespace Section

/-- The settings in a table. -/
def settings (s : Section) : List Setting := s.entries.filterMap Entry.setting?

/-- The name of a table, and what it says. -/
def table (s : Section) : String × Table := (s.name, entryTable s.entries)

theorem tableName_of_mem {s : Section} {setting : Setting} (h : setting ∈ s.settings) :
    setting.tableName = s.name := by
  obtain ⟨entry, hmem, hentry⟩ := List.mem_filterMap.mp h
  cases entry with
  | other key v => contradiction
  | setting other =>
      rw [Entry.setting?, Option.some.injEq] at hentry
      subst hentry
      exact s.fits _ hmem

/-- No two settings of a section have the same place. -/
theorem pairwise_place (s : Section) : s.settings.Pairwise (·.place ≠ ·.place) := by
  refine (List.pairwise_map.mp s.nodup).filterMap Entry.setting? ?_
  intro entry entry' hkey setting hsetting setting' hsetting' hplace
  cases entry with
  | other => contradiction
  | setting first =>
      cases entry' with
      | other => contradiction
      | setting second =>
          cases hsetting
          cases hsetting'
          exact hkey (congrArg Prod.snd hplace)

end Section

namespace Document

/-- All settings that a document says, in its order. -/
def settings (document : Document) : List Setting := document.sections.flatMap Section.settings

/-- The defaults, with what a document says in their places. -/
def result (document : Document) : Settings := document.settings.foldl Settings.put {}

/-- The tables that a document says. -/
def table (document : Document) : Table :=
  (document.sections.map Section.table).map Toml.headerTable

/-- The headers and entries of a document, in its order. -/
def statements (document : Document) : List Toml.Statement :=
  (document.sections.map Section.table).flatMap Toml.tableStatements

theorem pairwise_place (document : Document) :
    document.settings.Pairwise (·.place ≠ ·.place) := by
  refine List.pairwise_flatMap.mpr ⟨fun s _ => s.pairwise_place, ?_⟩
  refine (List.pairwise_map.mp document.nodup).imp ?_
  intro s s' hname setting hsetting setting' hsetting' hplace
  rw [← Section.tableName_of_mem hsetting, ← Section.tableName_of_mem hsetting'] at hname
  exact hname (congrArg Prod.fst hplace)

/-- The result holds what the document sets, and the defaults elsewhere. -/
theorem result_has_iff (document : Document) (setting : Setting) :
    document.result.Has setting ↔ setting ∈ document.settings ∨
      (∀ s ∈ document.settings, s.place ≠ setting.place) ∧ setting ∈ Setting.defaults := by
  rw [result, Settings.has_foldl_put_iff document.pairwise_place, Settings.has_default_iff]

/-- The order of a document and what is no setting make no difference. -/
theorem result_eq_of_mem {document document' : Document}
    (h : ∀ setting, setting ∈ document'.settings ↔ setting ∈ document.settings) :
    document'.result = document.result := by
  refine Settings.eq_of_has fun setting => ?_
  rw [result_has_iff, result_has_iff]
  simp only [h]

/-- The statements of a document make its table. -/
theorem ofStatements?_statements (document : Document) :
    Table.ofStatements? document.statements = some document.table := by
  refine Toml.ofStatements?_sections ?_ ?_
  · rw [List.map_map]
    exact document.nodup
  · simp only [List.forall_mem_map]
    intro s _
    have hnodup := s.nodup
    rwa [Section.table, entryTable, List.map_map]

end Document

/-! ## Reading tables -/

namespace SettingsGroup
variable {α : Type} {name : String} {index : Nat} {ofValue? : Value → Option α} {default : α}
  {key : String} {v : Value} {table : Table}

/-- The value of a key is read where it stands. -/
theorem read?_cons_of_eq (h : key = name) :
    (named ((key, v) :: table)).read? name index ofValue? default = ofValue? v := by
  simp [read?, get?, Table.get?, h]

theorem read?_cons_of_ne (h : key ≠ name) :
    (named ((key, v) :: table)).read? name index ofValue? default =
      (named table).read? name index ofValue? default := by
  simp [read?, get?, Table.get?, h]

/-- The default counts for a key that is missing. -/
theorem read?_of_not_mem (h : name ∉ table.map (·.1)) :
    (named table).read? name index ofValue? default = some default := by
  induction table with
  | nil => rfl
  | cons entry table ih =>
      rw [List.map_cons, List.mem_cons, not_or] at h
      rw [read?_cons_of_ne (Ne.symm h.1), ih h.2]

end SettingsGroup

open SettingsGroup (read?_cons_of_eq read?_cons_of_ne read?_of_not_mem)

/-- Scan options from a table, where others stand in for the missing ones. -/
def ScanOptions.readOver? (base : ScanOptions) (table : Table) : Option ScanOptions := do
  let policy ← (SettingsGroup.named table).read? "policy" 0 Policy.ofToml? base.policy
  let emitEof ← (SettingsGroup.named table).read? "emit_eof" 1 truthOfToml? base.emitEof
  let contextWidth ←
    (SettingsGroup.named table).read? "context_width" 2 widthOfToml? base.contextWidth
  pure { policy, emitEof, contextWidth }

/-- Output settings from a table, where others stand in for the missing ones. -/
def OutputSettings.readOver? (base : OutputSettings) (table : Table) : Option OutputSettings := do
  let format ← (SettingsGroup.named table).read? "format" 0 ListingFormat.ofToml? base.format
  let keepBlanks ←
    (SettingsGroup.named table).read? "keep_whitespace" 1 truthOfToml? base.keepBlanks
  pure { format, keepBlanks }

theorem ScanOptions.ofToml?_eq_readOver? (table : Table) :
    ofToml? (.table .header table) = readOver? {} table := rfl

theorem OutputSettings.ofToml?_eq_readOver? (table : Table) :
    ofToml? (.table .header table) = readOver? {} table := rfl

/-- A table is read entry by entry: a setting replaces the one that stands in for it, and
another key is skipped. -/
structure ReadsEntries {α : Type} (name : String) (readOver? : α → Table → Option α)
    (put : α → Setting → α) : Prop where
  nil (base : α) : readOver? base [] = some base
  setting {setting : Setting} {table : Table} (hname : setting.tableName = name)
    (hkey : setting.key ∉ table.map (·.1)) (base : α) :
    readOver? base ((setting.key, setting.value) :: table) = readOver? (put base setting) table
  other {key : String} (h : key ∉ settingKeys name) (v : Value) (table : Table) (base : α) :
    readOver? base ((key, v) :: table) = readOver? base table
  /-- A setting of another table has no influence. -/
  elsewhere {setting : Setting} (hname : setting.tableName ≠ name) (base : α) :
    put base setting = base

/-- **The run**: entries with different keys are all read, in whatever order. -/
theorem ReadsEntries.entries {α : Type} {name : String} {readOver? : α → Table → Option α}
    {put : α → Setting → α} (h : ReadsEntries name readOver? put) {entries : List Entry}
    (hkeys : (entries.map Entry.key).Nodup) (hfits : ∀ entry ∈ entries, entry.Fits name)
    (base : α) :
    readOver? base (entryTable entries) =
      some ((entries.filterMap Entry.setting?).foldl put base) := by
  induction entries generalizing base with
  | nil => exact h.nil base
  | cons entry entries ih =>
      obtain ⟨hkey, hkeys'⟩ := List.nodup_cons.mp hkeys
      obtain ⟨hfit, hfits'⟩ := List.forall_mem_cons.mp hfits
      cases entry with
      | setting setting =>
          have hnew : setting.key ∉ (entryTable entries).map (·.1) := by
            rwa [entryTable, List.map_map]
          exact (h.setting hfit hnew base).trans (ih hkeys' hfits' (put base setting))
      | other key v => exact (h.other hfit v _ base).trans (ih hkeys' hfits' base)

/-- **One step**: an entry of the scan's section sets its place and nothing else. -/
theorem ScanOptions.readsEntries : ReadsEntries "scan" readOver? put where
  nil base := rfl
  setting {setting table} hname hkey base := by
    cases setting with
    | policy p =>
        simp only [readOver?, Setting.key, Setting.value] at hkey ⊢
        rw [read?_cons_of_eq rfl, read?_cons_of_ne (by decide), read?_cons_of_ne (by decide),
          read?_of_not_mem hkey, Policy.ofToml?, choiceName?, Option.bind_some,
          Policy.ofStoredName?_storedName]
        rfl
    | emitEof b =>
        simp only [readOver?, Setting.key, Setting.value] at hkey ⊢
        rw [read?_cons_of_eq rfl, read?_cons_of_ne (by decide), read?_cons_of_ne (by decide),
          read?_of_not_mem hkey]
        rfl
    | contextWidth n =>
        simp only [readOver?, Setting.key, Setting.value] at hkey ⊢
        rw [read?_cons_of_eq rfl, read?_cons_of_ne (by decide), read?_cons_of_ne (by decide),
          read?_of_not_mem hkey]
        rfl
    | format => simp [Setting.tableName] at hname
    | keepBlanks => simp [Setting.tableName] at hname
  other {key} h v table base := by
    simp only [settingKeys, List.mem_cons, List.not_mem_nil, or_false, not_or] at h
    rw [readOver?, read?_cons_of_ne h.1, read?_cons_of_ne h.2.1, read?_cons_of_ne h.2.2]
    rfl
  elsewhere {setting} hname base := by
    cases setting <;> first | rfl | contradiction

/-- **One step**: so does an entry of the output's section. -/
theorem OutputSettings.readsEntries : ReadsEntries "output" readOver? put where
  nil base := rfl
  setting {setting table} hname hkey base := by
    cases setting with
    | format f =>
        simp only [readOver?, Setting.key, Setting.value] at hkey ⊢
        rw [read?_cons_of_eq rfl, read?_cons_of_ne (by decide), read?_of_not_mem hkey,
          ListingFormat.ofToml?, choiceName?, Option.bind_some,
          ListingFormat.ofStoredName?_storedName]
        rfl
    | keepBlanks b =>
        simp only [readOver?, Setting.key, Setting.value] at hkey ⊢
        rw [read?_cons_of_eq rfl, read?_cons_of_ne (by decide), read?_of_not_mem hkey]
        rfl
    | policy => simp [Setting.tableName] at hname
    | emitEof => simp [Setting.tableName] at hname
    | contextWidth => simp [Setting.tableName] at hname
  other {key} h v table base := by
    simp only [settingKeys, List.mem_cons, List.not_mem_nil, or_false, not_or] at h
    rw [readOver?, read?_cons_of_ne h.1, read?_cons_of_ne h.2]
    rfl
  elsewhere {setting} hname base := by
    cases setting <;> first | rfl | contradiction

/-! ## Reading documents -/

theorem foldl_eq_of_forall {α β : Type} {f : α → β → α} {a : α} {bs : List β}
    (h : ∀ b ∈ bs, f a b = a) : bs.foldl f a = a := by
  induction bs with
  | nil => rfl
  | cons b bs ih =>
      obtain ⟨hb, hbs⟩ := List.forall_mem_cons.mp h
      rw [List.foldl_cons, hb, ih hbs]

/-- Reading the table of a name takes the settings of a document that stand in it. -/
theorem read?_sections {α : Type} {name : String} {ofValue? : Value → Option α}
    {readOver? : α → Table → Option α} {put : α → Setting → α} {default : α}
    (h : ReadsEntries name readOver? put)
    (hof : ∀ table, ofValue? (.table .header table) = readOver? default table) (index : Nat)
    {sections : List Section} (hnames : (sections.map Section.name).Nodup) :
    (SettingsGroup.named ((sections.map Section.table).map Toml.headerTable)).read? name index
        ofValue? default =
      some ((sections.flatMap Section.settings).foldl put default) := by
  have hskip : ∀ {s : Section}, s.name ≠ name → ∀ a, s.settings.foldl put a = a :=
    fun hname a => foldl_eq_of_forall fun setting hmem =>
      h.elsewhere (Section.tableName_of_mem hmem ▸ hname) a
  induction sections with
  | nil => rfl
  | cons s sections ih =>
      obtain ⟨hfirst, hnames⟩ := List.nodup_cons.mp hnames
      rw [List.map_cons, List.map_cons, List.flatMap_cons, List.foldl_append]
      by_cases hname : s.name = name
      · have hothers : (sections.flatMap Section.settings).foldl put
            (s.settings.foldl put default) = s.settings.foldl put default := by
          refine foldl_eq_of_forall fun setting hmem => h.elsewhere ?_ _
          obtain ⟨s', hs', hsetting⟩ := List.mem_flatMap.mp hmem
          rw [Section.tableName_of_mem hsetting, ← hname]
          exact fun heq => hfirst (heq ▸ List.mem_map_of_mem hs')
        rw [hothers]
        subst hname
        exact ((read?_cons_of_eq rfl).trans (hof _)).trans (h.entries s.nodup s.fits default)
      · rw [hskip hname]
        exact (read?_cons_of_ne hname).trans (ih hnames)

/-- The table of a document is read as its result. -/
theorem Document.ofTable?_table (document : Document) :
    Settings.ofTable? document.table = some document.result := by
  have hscan : (SettingsGroup.named document.table).read? "scan" 0 ScanOptions.ofToml? {} =
      some (document.settings.foldl ScanOptions.put {}) :=
    read?_sections ScanOptions.readsEntries ScanOptions.ofToml?_eq_readOver? 0 document.nodup
  have houtput : (SettingsGroup.named document.table).read? "output" 1 OutputSettings.ofToml? {} =
      some (document.settings.foldl OutputSettings.put {}) :=
    read?_sections OutputSettings.readsEntries OutputSettings.ofToml?_eq_readOver? 1 document.nodup
  rw [Settings.ofTable?]
  dsimp only
  rw [hscan, houtput, result, Settings.foldl_put]
  rfl

/-- Every layout of a document has its tables. -/
theorem Document.read_of_written {document : Document} {text : List Char}
    (h : Written text document.statements) :
    Toml.read (String.ofList text) = .ok document.table :=
  h.read_eq document.ofStatements?_statements

theorem Document.ofToml_of_read {document : Document} {text : String}
    (h : Toml.read text = .ok document.table) : Settings.ofToml text = .ok document.result := by
  rw [Settings.ofToml, h]
  dsimp only
  rw [document.ofTable?_table]

/-- A text with the tables of a document is read as the defaults with its settings in their
places, in whatever way it is written; and every layout of the document is such a text.  Neither
the order nor anything that is no setting has an influence. -/
theorem Settings.ofToml_document (document : Document) :
    (∀ text : String, Toml.read text = .ok document.table → ofToml text = .ok document.result) ∧
      (∀ text : List Char, Written text document.statements →
        Toml.read (String.ofList text) = .ok document.table) ∧
      (∀ setting, document.result.Has setting ↔ setting ∈ document.settings ∨
        (∀ s ∈ document.settings, s.place ≠ setting.place) ∧ setting ∈ Setting.defaults) ∧
      ∀ document' : Document,
        (∀ setting, setting ∈ document'.settings ↔ setting ∈ document.settings) →
          document'.result = document.result :=
  ⟨fun _ => Document.ofToml_of_read, fun _ => Document.read_of_written, document.result_has_iff,
    fun _ => Document.result_eq_of_mem⟩

/-- A document with the tables out of order, with keys that are no settings, and with a table
that is not read. -/
def strayDocument : Document where
  sections :=
    [{ name := "output"
       entries := [.setting (.keepBlanks true), .other "policy" (.string "none")]
       nodup := by decide
       fits := by simp [Entry.Fits, Setting.tableName, settingKeys] },
     { name := "editor"
       entries := [.other "emit_eof" (.boolean true)]
       nodup := by decide
       fits := by simp [Entry.Fits, settingKeys] },
     { name := "scan"
       entries := [.setting (.contextWidth 255), .other "dialect" (.integer (-7))]
       nodup := by decide
       fits := by simp [Entry.Fits, Setting.tableName, settingKeys] }]
  nodup := by decide

/-- A text with either line break, comments, blanks and digits in base sixteen. -/
def strayText : List Char :=
  [("# listings", "\r\n"), ("[output]", "\r\n"), ("\tkeep_whitespace=true # or false", "\r\n"),
    ("policy = 'none'", "\n"), ("", "\n"), ("[ editor ]", "\n"), ("emit_eof = true", "\n"),
    ("[scan]", "\n"), ("context_width = 0x0_fF", "\n")].foldr
      (fun (line, lineBreak) rest => line.toList ++ (lineBreak.toList ++ rest))
      "dialect = -7".toList

open Toml (Blanks Line Scored blanks_nil blanks_space isName_toList lineEnd_nil) in
theorem written_strayText : Written strayText strayDocument.statements := by
  have hlisting : Line "# listings".toList [] :=
    .empty (.comment blanks_nil (List.all_eq_true.mp (by decide)))
  have houtput : Line "[output]".toList [.header ["output"]] :=
    .plainHeader (isName_toList "output" (by decide) (by decide))
  have hkeep : Line "\tkeep_whitespace=true # or false".toList
      [.entry ["keep_whitespace"] (.boolean true)] :=
    .entry (List.all_eq_true.mp (by decide) : Blanks ['\t']) blanks_nil blanks_nil
      (isName_toList "keep_whitespace" (by decide) (by decide)) (.boolean true)
      (.comment blanks_space (List.all_eq_true.mp (by decide)))
  have hpolicy : Line "policy = 'none'".toList [.entry ["policy"] (.string "none")] :=
    .plainEntry (isName_toList "policy" (by decide) (by decide))
      (.string (.inr rfl) (List.all_eq_true.mp (by decide) : ∀ c ∈ "none".toList, _))
  have heditor : Line "[ editor ]".toList [.header ["editor"]] :=
    .header blanks_nil blanks_space blanks_space
      (isName_toList "editor" (by decide) (by decide)) lineEnd_nil
  have hemit : Line "emit_eof = true".toList [.entry ["emit_eof"] (.boolean true)] :=
    .plainEntry (isName_toList "emit_eof" (by decide) (by decide)) (.boolean true)
  have hscan : Line "[scan]".toList [.header ["scan"]] :=
    .plainHeader (isName_toList "scan" (by decide) (by decide))
  have hwidth : Line "context_width = 0x0_fF".toList
      [.entry ["context_width"] (.integer 255)] :=
    .plainEntry (isName_toList "context_width" (by decide) (by decide))
      (.integer (.based (.head _) (.score '0' (.next 'f' (.last 'F')))
        (List.all_eq_true.mp (by decide))) ⟨by decide, by decide⟩)
  have hseven : Scored (decimal 7) ['7'] := .last '7'
  have hdialect : Line "dialect = -7".toList [.entry ["dialect"] (.integer (-7))] :=
    .plainEntry (isName_toList "dialect" (by decide) (by decide))
      (.integer (.minus hseven) ⟨by decide, by decide⟩)
  have hunix : ['\n'] ∈ [['\n'], ['\r', '\n']] := .head _
  have hother : ['\r', '\n'] ∈ [['\n'], ['\r', '\n']] := .tail _ (.head _)
  have htext := Written.next hlisting hother (.next houtput hother (.next hkeep hother
    (.next hpolicy hunix (.next (.empty lineEnd_nil) hunix (.next heditor hunix (.next hemit hunix
      (.next hscan hunix (.next hwidth hunix (.last hdialect)))))))))
  exact htext

/-- A width and the blanks of a listing are set, and all else is left as it was. -/
theorem Settings.ofToml_strayText :
    Written strayText strayDocument.statements ∧
      ofToml (String.ofList strayText) =
        .ok { scan := { contextWidth := 255 }, output := { keepBlanks := true } } :=
  have ⟨hsettings, hwritten, _⟩ := ofToml_document strayDocument
  ⟨written_strayText, hsettings _ (hwritten strayText written_strayText)⟩

end PoxTokens
