import PoxTokens.FileTree
import PoxTokens.Log
import PoxTokens.Settings.Toml

/-!
# PoxTokens.Settings.Load

Settings from files.  Without a path of its own, the first file that is found in
the working directory, the home directory or the directory for settings counts,
whatever is in it; without any file the defaults do.
-/

namespace PoxTokens

/-- The name of a file of settings. -/
def settingsFileName : String := "poxt.toml"

/-- The directories of the user, as far as the system knows them. -/
structure UserDirectories where
  home : Option String
  /-- The directory for settings. -/
  config : Option String
  deriving DecidableEq, Repr

/-- The path of the file of settings below a directory for settings. -/
def settingsPathBelow (directory : String) : String :=
  joinPath (joinPath directory "poxt") settingsFileName

/-- Where a file of settings is looked for, in this order. -/
def settingsPaths (directories : UserDirectories) : List String :=
  [settingsFileName]
    ++ (directories.home.map fun home => settingsPathBelow (joinPath home ".config")).toList
    ++ (directories.config.map settingsPathBelow).toList

namespace Settings

/-- The settings of what was found at a path. -/
def ofStatus (path : String) : FileStatus → Except Failure Settings
  | .absent => .error (.settingsNotFound path)
  | .unreadable reason => .error (.io reason)
  | .file bytes =>
    match String.fromUTF8? bytes with
    | none => .error .fileNotText
    | some text => ofToml text

/-- Reads the settings at a path. -/
def loadFrom (look : String → FileStatus) (path : String) : Logged (Except Failure Settings) :=
  match ofStatus path (look path) with
  | .ok settings => ⟨[.settingsLoaded path], .ok settings⟩
  | .error failure => ⟨[], .error failure⟩

/-- Reads the settings at the first of some paths where anything is found. -/
def loadFirst (look : String → FileStatus) (paths : List String) :
    Logged (Except Failure Settings) :=
  match paths.find? fun path => (look path).isPresent with
  | some path => loadFrom look path
  | none => ⟨[.noSettings], .ok {}⟩

/-- Reads the settings at a path, or else where they are looked for. -/
def load (directories : UserDirectories) (look : String → FileStatus)
    (path? : Option String) : Logged (Except Failure Settings) :=
  match path? with
  | some path => loadFrom look path
  | none => loadFirst look (settingsPaths directories)

end Settings

end PoxTokens
