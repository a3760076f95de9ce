import PoxTokens.LexError

/-!
# PoxTokens.Failure

Why a command failed.  `Failure.message` is the one line that is shown for it.
-/

namespace PoxTokens

/-- The reason why a command failed. -/
inductive Failure where
  /-- The settings are missing or malformed. -/
  | configuration (detail : String)
  /-- The input is not what it should be. -/
  | validation (detail : String)
  /-- The source holds a character that no rule recognises. -/
  | lex (e : LexError)
  /-- Reading or writing failed. -/
  | io (detail : String)
  /-- Writing a JSON document failed. -/
  | json (detail : String)
  deriving DecidableEq, Repr

namespace Failure

/-- The failure in one line. -/
def message : Failure → String
  | configuration detail => "Configuration error: " ++ detail
  | validation detail => "Validation error: " ++ detail
  | lex e => "Lex error: " ++ e.message
  | io detail => "IO error: " ++ detail
  | json detail => "JSON error: " ++ detail

/-- There is no file at the path of the settings. -/
def settingsNotFound (path : String) : Failure :=
  configuration ("Configuration file not found: " ++ path)

/-- The text of the settings is malformed. -/
def settingsMalformed (detail : String) : Failure :=
  configuration ("Failed to parse configuration: " ++ detail)

/-- The bytes of a source are no text. -/
def sourceNotText : Failure := validation "source is not valid UTF-8"

/-- The bytes of a file are no text. -/
def fileNotText : Failure := io "stream did not contain valid UTF-8"

end Failure

end PoxTokens
