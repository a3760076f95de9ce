import Mathlib.Data.List.Find
import PoxTokens.Proofs.Utf8
import PoxTokens.Settings.Load

/-!
# PoxTokens.Proofs.SettingsLookup

The file of settings that counts.  In a tree of files, a path of plain names leads to the place
of its names (`walk_eq_status`), so the first of the three places for settings where the tree
has anything is the one that is read, and it decides alone: a directory or a file that is no
text or no settings is an error there, and nothing else in the tree matters
(`load_decided_by_first`).  Without any of the three, the defaults count; but a file may also
say what the defaults are, as an empty one does (`load_empty_file`).
-/

namespace PoxTokens

namespace FileTree

/-! ## Places -/

/-- Is there a directory or a file at a place? -/
def has (tree : FileTree) (place : List String) : Bool :=
  tree.isDirectory place || tree.files.any (·.1 == place)

variable {tree : FileTree} {place : List String}

/-- What is above a directory is a directory. -/
theorem isDirectory_of_append {names : List String} (h : tree.isDirectory (place ++ names)) :
    tree.isDirectory place := by
  simp only [isDirectory, Bool.or_eq_true, List.any_eq_true, List.isPrefixOf_iff_prefix,
    List.isEmpty_iff] at h ⊢
  rcases h with (hnil | ⟨path, hmem, hprefix⟩) | ⟨file, hmem, hprefix⟩
  · exact .inl (.inl (List.append_eq_nil_iff.mp hnil).1)
  · exact .inl (.inr ⟨path, hmem, (List.prefix_append place names).trans hprefix⟩)
  · exact .inr ⟨file, hmem, (List.prefix_append place names).trans hprefix⟩

/-- What is above anything is a directory. -/
theorem isDirectory_of_has {name : String} {names : List String}
    (h : tree.has (place ++ name :: names)) : tree.isDirectory place := by
  rw [has, Bool.or_eq_true] at h
  rcases h with hdirectory | hfile
  · exact isDirectory_of_append hdirectory
  · obtain ⟨file, hmem, hpath⟩ := List.any_eq_true.mp hfile
    have hprefix : place <+: file.1.dropLast := by
      rw [beq_iff_eq.mp hpath, List.dropLast_append_of_ne_nil (by simp)]
      exact List.prefix_append _ _
    simp only [isDirectory, Bool.or_eq_true, List.any_eq_true, List.isPrefixOf_iff_prefix]
    exact .inr ⟨file, hmem, hprefix⟩

theorem status_of_not_has (h : tree.has place = false) : tree.status place = .absent := by
  rw [has, Bool.or_eq_false_iff, List.any_eq_false] at h
  rw [status, h.1, if_neg Bool.false_ne_true, List.find?_eq_none.mpr h.2]

/-- What is there is a directory or a file, and a directory hides a file. -/
theorem status_of_has (h : tree.has place) :
    tree.isDirectory place ∧ tree.status place = .directory ∨
      ∃ bytes, (place, bytes) ∈ tree.files ∧ tree.status place = .file bytes := by
  cases hdirectory : tree.isDirectory place with
  | true => exact .inl ⟨rfl, by rw [status, if_pos hdirectory]⟩
  | false =>
      rw [status, hdirectory, if_neg Bool.false_ne_true]
      cases hfind : tree.files.find? (·.1 == place) with
      | none =>
          rw [has, hdirectory, Bool.false_or, List.any_eq_true] at h
          obtain ⟨file, hmem, hpath⟩ := h
          exact absurd hpath (List.find?_eq_none.mp hfind file hmem)
      | some file =>
          have hpath : file.1 = place := by simpa using List.find?_some hfind
          exact .inr ⟨file.2, hpath ▸ List.mem_of_find?_eq_some hfind, rfl⟩

/-- Something is found exactly where the tree has anything. -/
theorem isPresent_status (tree : FileTree) (place : List String) :
    (tree.status place).isPresent = tree.has place := by
  cases h : tree.has place with
  | false =>
      rw [status_of_not_has h]
      rfl
  | true =>
      rcases status_of_has h with ⟨-, hstatus⟩ | ⟨bytes, -, hstatus⟩
      · rw [hstatus]
        rfl
      · rw [hstatus]
        rfl

/-- Names that do not stay or go back lead to the place that they name. -/
theorem walk_eq_status (tree : FileTree) (place : List String) {names : List String}
    (h : ∀ name ∈ names, name ∉ ["", ".", ".."]) :
    tree.walk place names = tree.status (place ++ names) := by
  induction names generalizing place with
  | nil => rw [walk, List.append_nil]
  | cons name names ih =>
      obtain ⟨hname, hnames⟩ := List.forall_mem_cons.mp h
      simp only [List.mem_cons, List.not_mem_nil, or_false, not_or] at hname
      cases hdirectory : tree.isDirectory place with
      | true =>
          rw [walk, hdirectory, if_pos rfl, if_neg (by simp [hname]), if_neg hname.2.2, ih _ hnames,
            List.append_assoc, List.singleton_append]
      | false =>
          rw [walk, hdirectory, if_neg Bool.false_ne_true]
          have habsent : tree.has (place ++ name :: names) = false := by
            rw [Bool.eq_false_iff]
            intro hhas
            rw [isDirectory_of_has hhas] at hdirectory
            contradiction
          rw [status_of_not_has habsent]

end FileTree

/-! ## Where settings are looked for -/

/-- Where settings are looked for in a tree, if the program runs in `/cwd`, the home directory
is `/home` and the directory for settings `/xdg`: the paths, and the places to which they lead. -/
def settingsCandidates : List (String × List String) :=
  [("poxt.toml", ["cwd", "poxt.toml"]),
    ("/home/.config/poxt/poxt.toml", ["home", ".config", "poxt", "poxt.toml"]),
    ("/xdg/poxt/poxt.toml", ["xdg", "poxt", "poxt.toml"])]

/-- The first of these where the tree has anything. -/
def FileTree.firstSettings? (tree : FileTree) : Option (String × List String) :=
  settingsCandidates.find? fun (_, place) => tree.has place

/-- The directories of the user are those that variables name, where they do: the home directory,
and the directory for settings if its path is absolute. -/
structure UserDirectories.NamedBy (directories : UserDirectories) (env : String → Option String) :
    Prop where
  home_eq : ∀ path, env "HOME" = some path → path ≠ "" → directories.home = some path
  config_eq : ∀ path, env "XDG_CONFIG_HOME" = some path → path.startsWith "/" →
    directories.config = some path

/-- The directories of the user in the tree. -/
def treeDirectories : UserDirectories := ⟨some "/home", some "/xdg"⟩

/-- If the variables name the directories of the tree, there are no others. -/
theorem UserDirectories.NamedBy.eq_treeDirectories {directories : UserDirectories}
    {env : String → Option String} (h : directories.NamedBy env) (hhome : env "HOME" = some "/home")
    (hxdg : env "XDG_CONFIG_HOME" = some "/xdg") : directories = treeDirectories := by
  obtain ⟨home, config⟩ := directories
  have hhome' : home = some "/home" := h.home_eq _ hhome (by decide)
  have hconfig : config = some "/xdg" := h.config_eq _ hxdg (by decide +kernel)
  rw [hhome', hconfig, treeDirectories]

theorem settingsPaths_treeDirectories :
    settingsPaths treeDirectories = settingsCandidates.map (·.1) := by
  decide +kernel

/-- A path at which settings are looked for leads to its place in the tree. -/
theorem FileTree.look_of_candidate (tree : FileTree) {path : String} {place : List String}
    (h : (path, place) ∈ settingsCandidates) : tree.look ["cwd"] path = tree.status place := by
  have hroot : tree.isDirectory [] = true := rfl
  have habsolute : ∀ names, tree.walk [] ("" :: names) = tree.walk [] names := by
    intro names
    rw [walk, hroot, if_pos rfl, if_pos (.inl rfl)]
  simp only [settingsCandidates, List.mem_cons, Prod.mk.injEq, List.not_mem_nil, or_false] at h
  rcases h with ⟨rfl, rfl⟩ | ⟨rfl, rfl⟩ | ⟨rfl, rfl⟩
  · have hnames : names "poxt.toml" = ["poxt.toml"] := by decide +kernel
    rw [look, if_neg (by decide +kernel), if_neg (by decide +kernel), hnames,
      walk_eq_status _ _ (by decide)]
    rfl
  · have hnames : names "/home/.config/poxt/poxt.toml" =
        ["", "home", ".config", "poxt", "poxt.toml"] := by decide +kernel
    rw [look, if_neg (by decide +kernel), if_pos (by decide +kernel), hnames, habsolute,
      walk_eq_status _ _ (by decide)]
    rfl
  · have hnames : names "/xdg/poxt/poxt.toml" = ["", "xdg", "poxt", "poxt.toml"] := by
      decide +kernel
    rw [look, if_neg (by decide +kernel), if_pos (by decide +kernel), hnames, habsolute,
      walk_eq_status _ _ (by decide)]
    rfl

theorem FileTree.has_of_firstSettings? {tree : FileTree} {path : String} {place : List String}
    (h : tree.firstSettings? = some (path, place)) : tree.has place :=
  List.find?_some (p := fun candidate : String × List String => tree.has candidate.2) h

theorem FileTree.look_of_firstSettings? {tree : FileTree} {path : String} {place : List String}
    (h : tree.firstSettings? = some (path, place)) :
    tree.look ["cwd"] path = tree.status place :=
  tree.look_of_candidate (List.mem_of_find?_eq_some h)

namespace Settings

/-! ## What is read -/

/-- A text that cannot be read is a mistake in the settings, and nothing worse. -/
theorem ofToml_eq_error {text : String} {failure : Failure} (h : ofToml text = .error failure) :
    ∃ detail, failure = .settingsMalformed detail := by
  rw [ofToml] at h
  split at h
  · exact ⟨_, (Except.error.inj h).symm⟩
  · split at h
    · exact ⟨_, (Except.error.inj h).symm⟩
    · contradiction

theorem ofStatus_text (path text : String) : ofStatus path (.file text.toUTF8) = ofToml text := by
  rw [ofStatus, fromUTF8?_eq_some_iff.mpr rfl]

theorem ofStatus_not_text (path : String) {bytes : ByteArray}
    (h : ¬∃ text : String, text.toUTF8 = bytes) :
    ofStatus path (.file bytes) = .error .fileNotText := by
  rw [ofStatus, fromUTF8?_eq_none_iff.mpr h]

theorem ofToml_empty : ofToml "" = .ok {} := by
  have htokens : Toml.tokens? [] = some [] := by rw [Toml.tokens?]
  have hread : Toml.read "" = .ok [] := by
    have hlines : Toml.plainLines? (Toml.dropByteOrderMark "".toList) = some [] := rfl
    rw [Toml.read, hlines, Option.bind_some, htokens]
    rfl
  rw [ofToml, hread]
  rfl

/-- What is found at a path decides, and the log does not change it. -/
theorem value_loadFrom (look : String → FileStatus) (path : String) :
    (loadFrom look path).value = ofStatus path (look path) := by
  rw [loadFrom]
  split
  · next heq => exact heq.symm
  · next heq => exact heq.symm

/-- Whoever reads a file does not report that there is none. -/
theorem events_loadFrom_ne (look : String → FileStatus) (path : String) :
    (loadFrom look path).events ≠ [.noSettings] := by
  rw [loadFrom]
  split <;> simp

/-- The first candidate that is there is read, whatever is found. -/
theorem load_eq (tree : FileTree) :
    load treeDirectories (tree.look ["cwd"]) none =
      match tree.firstSettings? with
      | some (path, _) => loadFrom (tree.look ["cwd"]) path
      | none => ⟨[.noSettings], .ok {}⟩ := by
  have hfind : (settingsCandidates.map (·.1)).find? (fun path =>
      (tree.look ["cwd"] path).isPresent) = tree.firstSettings?.map (·.1) := by
    rw [List.find?_map, FileTree.firstSettings?]
    congr 1
    refine List.find?_congr fun (path, place) hmem => ?_
    rw [Function.comp_apply, tree.look_of_candidate hmem, tree.isPresent_status]
  rw [load, loadFirst, settingsPaths_treeDirectories, hfind]
  cases tree.firstSettings? with
  | none => rfl
  | some candidate => rfl

/-- What is found at the first candidate is all that is read. -/
theorem value_load_of_first {tree : FileTree} {path : String} {place : List String}
    (h : tree.firstSettings? = some (path, place)) :
    (load treeDirectories (tree.look ["cwd"]) none).value = ofStatus path (tree.status place) := by
  rw [load_eq, h, ← FileTree.look_of_firstSettings? h]
  exact value_loadFrom _ path

/-- Only without any candidate the program reports that there is none. -/
theorem events_load_eq_iff (tree : FileTree) :
    (load treeDirectories (tree.look ["cwd"]) none).events = [.noSettings] ↔
      tree.firstSettings? = none := by
  rw [load_eq]
  cases tree.firstSettings? with
  | none => simp
  | some candidate => simp [events_loadFrom_ne]

/-- The defaults count if there is no file, or if the first one says the same. -/
theorem value_load_eq_default_iff (tree : FileTree) :
    (load treeDirectories (tree.look ["cwd"]) none).value = .ok {} ↔ tree.firstSettings? = none ∨
      ∃ path place, tree.firstSettings? = some (path, place) ∧
        (loadFrom (tree.look ["cwd"]) path).value = .ok {} := by
  rw [load_eq]
  cases tree.firstSettings? with
  | none => simp
  | some candidate => simp [Prod.ext_iff]

/-- Trees that agree on the first candidate and on what is there give the same settings. -/
theorem load_congr {tree other : FileTree} (hsame : other.firstSettings? = tree.firstSettings?)
    (hstatus : ∀ path place, tree.firstSettings? = some (path, place) →
      other.status place = tree.status place) :
    load treeDirectories (other.look ["cwd"]) none =
      load treeDirectories (tree.look ["cwd"]) none := by
  rw [load_eq, load_eq, hsame]
  cases h : tree.firstSettings? with
  | none => rfl
  | some candidate =>
      obtain ⟨path, place⟩ := candidate
      have hlook : other.look ["cwd"] path = tree.look ["cwd"] path := by
        rw [FileTree.look_of_firstSettings? h, FileTree.look_of_firstSettings? (hsame.trans h)]
        exact hstatus path place h
      dsimp only
      rw [loadFrom, loadFrom, hlook]

/-- **The first file of settings decides alone**: what is found at the first candidate is read
as if its path had been given, with every failure that this has, and nothing else in the tree
matters.  Without any candidate the defaults count, and only then they count unread; a file may
say the same. -/
theorem load_decided_by_first {env : String → Option String} {directories : UserDirectories}
    (hnamed : directories.NamedBy env) (hhome : env "HOME" = some "/home")
    (hxdg : env "XDG_CONFIG_HOME" = some "/xdg") (tree : FileTree) :
    let load (tree : FileTree) := load directories (tree.look ["cwd"]) none
    let loadFrom (tree : FileTree) := loadFrom (tree.look ["cwd"])
    (∀ path place, tree.firstSettings? = some (path, place) →
      load tree = loadFrom tree path ∧
      (tree.isDirectory place ∨ ∃ bytes, tree.status place = .file bytes) ∧
      (tree.isDirectory place →
        (load tree).value = .error (.io "Is a directory (os error 21)")) ∧
      (∀ bytes, tree.status place = .file bytes → (¬∃ text : String, text.toUTF8 = bytes) →
        (load tree).value = .error (.io "stream did not contain valid UTF-8")) ∧
      ∀ text : String, tree.status place = .file text.toUTF8 →
        (load tree).value = ofToml text ∧
        ∀ failure, ofToml text = .error failure →
          ∃ detail, failure = .configuration ("Failed to parse configuration: " ++ detail)) ∧
    (tree.firstSettings? = none → (load tree).value = .ok {}) ∧
    ((load tree).events = [.noSettings] ↔ tree.firstSettings? = none) ∧
    ((load tree).value = .ok {} ↔ tree.firstSettings? = none ∨
      ∃ path place, tree.firstSettings? = some (path, place) ∧
        (loadFrom tree path).value = .ok {}) ∧
    (∀ other : FileTree, other.firstSettings? = tree.firstSettings? →
      (∀ path place, tree.firstSettings? = some (path, place) →
        other.status place = tree.status place) → load other = load tree) ∧
    ∀ path, tree.look ["cwd"] path = .absent → (loadFrom tree path).value =
      .error (.configuration ("Configuration file not found: " ++ path)) := by
  obtain rfl := hnamed.eq_treeDirectories hhome hxdg
  intro load loadFrom
  refine ⟨?_, ?_, events_load_eq_iff tree, value_load_eq_default_iff tree,
    fun other hsame hstatus => load_congr hsame hstatus, ?_⟩
  · intro path place h
    have hvalue : (load tree).value = ofStatus path (tree.status place) :=
      value_load_of_first h
    refine ⟨?_, ?_, ?_, ?_, ?_⟩
    · dsimp only [load]
      rw [load_eq, h]
    · have hhas := FileTree.has_of_firstSettings? h
      exact (FileTree.status_of_has hhas).imp And.left fun ⟨bytes, hfile⟩ => ⟨bytes, hfile.2⟩
    · intro hdirectory
      rw [hvalue, FileTree.status, if_pos hdirectory]
      rfl
    · intro bytes hfile hnone
      rw [hvalue, hfile, ofStatus_not_text path hnone]
      rfl
    · intro text hfile
      rw [hvalue, hfile, ofStatus_text]
      exact ⟨rfl, fun failure hfailure => ofToml_eq_error hfailure⟩
  · intro h
    exact (value_load_eq_default_iff tree).mpr (.inl h)
  · intro path habsent
    have hvalue : (loadFrom tree path).value = ofStatus path (tree.look ["cwd"] path) :=
      value_loadFrom _ path
    rw [hvalue, habsent]
    rfl

/-- A directory in the place of the first file hides the others. -/
theorem load_decided_by_first_directory :
    let env (name : String) : Option String :=
      if name = "HOME" then some "/home" else if name = "XDG_CONFIG_HOME" then some "/xdg" else none
    let tree : FileTree :=
      ⟨[(["xdg", "poxt", "poxt.toml"], "".toUTF8)], [["home", ".config", "poxt", "poxt.toml"]]⟩
    treeDirectories.NamedBy env ∧ env "HOME" = some "/home" ∧
      env "XDG_CONFIG_HOME" = some "/xdg" ∧
      (load treeDirectories (tree.look ["cwd"]) none).value =
        .error (.io "Is a directory (os error 21)") := by
  intro env tree
  have hhome : env "HOME" = some "/home" := by decide
  have hxdg : env "XDG_CONFIG_HOME" = some "/xdg" := by decide
  have hnamed : treeDirectories.NamedBy env := by
    refine ⟨fun path h _ => ?_, fun path h _ => ?_⟩
    · exact hhome.symm.trans h
    · exact hxdg.symm.trans h
  have hfirst : tree.firstSettings? =
      some ("/home/.config/poxt/poxt.toml", ["home", ".config", "poxt", "poxt.toml"]) := by
    decide +kernel
  have hread := ((load_decided_by_first hnamed hhome hxdg tree).1 _ _ hfirst).2.2.1
  exact ⟨hnamed, hhome, hxdg, hread (by decide +kernel)⟩

/-- The defaults do not tell that there is no file: an empty one says the same. -/
theorem load_empty_file :
    let tree : FileTree := ⟨[(["cwd", "poxt.toml"], "".toUTF8)], []⟩
    ¬((load treeDirectories (tree.look ["cwd"]) none).value = .ok {} ↔
      ∀ candidate ∈ settingsCandidates, tree.has candidate.2 = false) := by
  intro tree h
  have hfirst : tree.firstSettings? = some ("poxt.toml", ["cwd", "poxt.toml"]) := by
    decide +kernel
  have hload : (load treeDirectories (tree.look ["cwd"]) none).value = .ok {} := by
    have hfile : tree.status ["cwd", "poxt.toml"] = .file "".toUTF8 := rfl
    rw [value_load_of_first hfirst, hfile, ofStatus_text, ofToml_empty]
  have habsent := h.mp hload ("poxt.toml", ["cwd", "poxt.toml"]) List.mem_cons_self
  have hpresent : tree.has ["cwd", "poxt.toml"] = true := by decide +kernel
  rw [hpresent] at habsent
  contradiction

end Settings

end PoxTokens
