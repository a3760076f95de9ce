import PoxTokens.Proofs.SettingsDocument

/-!
# PoxTokens.Proofs.SettingsToml

Settings written as TOML are read back as they were.  Their text is that of the document which
says every setting, each on a line of its own (`Settings.written_tomlChars`), so nothing is left
to the defaults.
-/

namespace PoxTokens

open Toml (IsName Statement WritesValue Written isName_toList lineEnd_nil)

/-! ## Values -/

/-- A name is written in quotes as it is, if all of its characters are plain. -/
theorem writesValue_plainQuoted {name : String} (h : name.toList.all (Toml.isPlainIn '"')) :
    WritesValue (plainQuoted name) (.string name) := by
  have hvalue := WritesValue.string (.inl rfl) (List.all_eq_true.mp h)
  rwa [String.ofList_toList] at hvalue

theorem writesValue_policy (policy : Policy) :
    WritesValue (plainQuoted policy.storedName) (.string policy.storedName) := by
  cases policy with
  | longest => exact writesValue_plainQuoted (by decide)
  | firstMatch => exact writesValue_plainQuoted (by decide)

theorem writesValue_format (format : ListingFormat) :
    WritesValue (plainQuoted format.storedName) (.string format.storedName) := by
  cases format with
  | text => exact writesValue_plainQuoted (by decide)
  | json => exact writesValue_plainQuoted (by decide)

theorem writesValue_decimal {n : Nat} (h : n < Toml.integerBound) :
    WritesValue (decimal n) (.integer n) := by
  have hfits : Toml.Fits n := ⟨by omega, by exact_mod_cast h⟩
  exact .integer (.plain (.of_digits (isDigits_decimal n).1)) hfits

/-! ## Lines -/

/-- The line of a header in front writes the header in front. -/
theorem written_headerLine {name : String} {rest : List Char} {statements : List Statement}
    (hname : IsName name.toList) (hrest : Written rest statements) :
    Written ('[' :: (name.toList ++ [']', '\n']) ++ rest) (.header [name] :: statements) := by
  have h := Written.next (.plainHeader hname) (.head _) hrest
  simpa using h

theorem written_entryLine {name : String} {value rest : List Char} {v : Toml.Value}
    {statements : List Statement} (hname : IsName name.toList)
    (hvalue : WritesValue value v) (hrest : Written rest statements) :
    Written (entryLine name value ++ rest) (.entry [name] v :: statements) := by
  have h := Written.next (.plainEntry hname hvalue) (.head _) hrest
  simpa [entryLine] using h

theorem written_emptyLine {rest : List Char} {statements : List Statement}
    (hrest : Written rest statements) : Written ('\n' :: rest) statements :=
  .next (.empty lineEnd_nil) (.head _) hrest

/-! ## Settings -/

namespace Settings
variable {settings : Settings} {text : String}

/-- The document that says every setting. -/
def document (settings : Settings) : Document where
  sections :=
    [{ name := "scan"
       entries := [.setting (.policy settings.scan.policy),
         .setting (.emitEof settings.scan.emitEof),
         .setting (.contextWidth settings.scan.contextWidth)]
       nodup := by simp [Entry.key, Setting.key]
       fits := by simp [Entry.Fits, Setting.tableName] },
     { name := "output"
       entries := [.setting (.format settings.output.format),
         .setting (.keepBlanks settings.output.keepBlanks)]
       nodup := by simp [Entry.key, Setting.key]
       fits := by simp [Entry.Fits, Setting.tableName] }]
  nodup := by simp

theorem result_document (settings : Settings) : settings.document.result = settings := rfl

/-- The text of the settings writes their document. -/
theorem written_tomlChars (h : settings.scan.contextWidth < Toml.integerBound) :
    Written settings.tomlChars settings.document.statements := by
  have hkeep := written_entryLine (isName_toList "keep_whitespace" (by decide) (by decide))
    (.boolean settings.output.keepBlanks) (.last (.empty lineEnd_nil))
  have hformat := written_entryLine (isName_toList "format" (by decide) (by decide))
    (writesValue_format settings.output.format) hkeep
  have houtput := written_headerLine (isName_toList "output" (by decide) (by decide)) hformat
  have hwidth := written_entryLine (isName_toList "context_width" (by decide) (by decide))
    (writesValue_decimal h) (written_emptyLine houtput)
  have hemit := written_entryLine (isName_toList "emit_eof" (by decide) (by decide))
    (.boolean settings.scan.emitEof) hwidth
  have hpolicy := written_entryLine (isName_toList "policy" (by decide) (by decide))
    (writesValue_policy settings.scan.policy) hemit
  have hscan := written_headerLine (isName_toList "scan" (by decide) (by decide)) hpolicy
  have hfirst : "[scan]\n".toList = '[' :: ("scan".toList ++ [']', '\n']) := rfl
  have hsecond : "\n[output]\n".toList = '\n' :: '[' :: ("output".toList ++ [']', '\n']) := rfl
  unfold tomlChars
  rw [hfirst, hsecond]
  simp only [List.append_nil, List.append_assoc, List.cons_append] at hscan ⊢
  exact hscan

/-- Settings that have a text are read back from it. -/
theorem ofToml_toToml? (h : settings.toToml? = some text) : ofToml text = .ok settings := by
  rw [toToml?] at h
  split at h
  · next hwidth =>
    rw [Option.some.injEq] at h
    have hread := Document.read_of_written (written_tomlChars hwidth)
    rw [← h, Document.ofToml_of_read hread, result_document]
  · contradiction

/-- All settings have a text if the context width is an integer of 64 bits; they are read back
from it, and no others have the same text. -/
theorem toToml?_roundTrip (h : settings.scan.contextWidth ≤ 9223372036854775807) :
    ∃ text, settings.toToml? = some text ∧ ofToml text = .ok settings ∧
      ∀ other : Settings, other.toToml? = some text → other = settings := by
  have hwidth : settings.scan.contextWidth < Toml.integerBound := Nat.lt_succ_of_le h
  have htext : settings.toToml? = some (String.ofList settings.tomlChars) := if_pos hwidth
  have hread := ofToml_toToml? htext
  refine ⟨_, htext, hread, fun other hother => ?_⟩
  have hsame := ofToml_toToml? hother
  rw [hread, Except.ok.injEq] at hsame
  exact hsame.symm

/-- Settings that are not the defaults, with the widest context that has a text. -/
def widestSettings : Settings :=
  { scan := { policy := .firstMatch, emitEof := true, contextWidth := 9223372036854775807 }
    output := { format := .json, keepBlanks := true } }

/-- The widest context that can be written, with nothing left as it is by default. -/
theorem toToml?_roundTrip_widestSettings :
    widestSettings.scan.contextWidth ≤ 9223372036854775807 ∧
      ∃ text, widestSettings.toToml? = some text ∧ ofToml text = .ok widestSettings ∧
        ∀ other : Settings, other.toToml? = some text → other = widestSettings :=
  ⟨Nat.le_refl _, toToml?_roundTrip (Nat.le_refl _)⟩

example : widestSettings.toToml? = some
    ("[scan]\npolicy = \"first-match\"\nemit_eof = true\ncontext_width = 9223372036854775807\n" ++
      "\n[output]\nformat = \"json\"\nkeep_whitespace = true\n") := by
  decide +kernel

end Settings

end PoxTokens
