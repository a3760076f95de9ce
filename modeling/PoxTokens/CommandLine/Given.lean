import PoxTokens.Listing
import PoxTokens.Policy

/-!
# PoxTokens.CommandLine.Given

The flags and options of the command line, and the record of those that were
given.  Each may be given once; the value of an option is checked when it is
recorded.
-/

namespace PoxTokens.CommandLine

/-- A flag has no value. -/
inductive Flag where
  | verbose
  | noColour
  | keepBlanks
  | emitEof
  | stats
  deriving DecidableEq, Repr

/-- An option has a value. -/
inductive Choice where
  | config
  | policy
  | format
  deriving DecidableEq, Repr

/-- What a name with dashes stands for. -/
inductive Switch where
  | flag (flag : Flag)
  | choice (choice : Choice)
  | help
  | version
  deriving DecidableEq, Repr

/-- A mistake in the use of the command line. -/
inductive UsageError where
  | unknownArgument (argument : String)
  | repeatedFlag (flag : Flag)
  | repeatedChoice (choice : Choice)
  | missingValue (choice : Choice)
  | badValue (choice : Choice) (value : String)
  | unwantedValue (value : String)
  | badVariable (name value : String)
  | missingCommand
  deriving DecidableEq, Repr

/-- The flag as it is written. -/
def Flag.spelling : Flag → String
  | verbose => "--verbose"
  | noColour => "--no-color"
  | keepBlanks => "--keep-whitespace"
  | emitEof => "--eof"
  | stats => "--stats"

/-- The option as it is written. -/
def Choice.spelling : Choice → String
  | config => "--config"
  | policy => "--policy"
  | format => "--format"

/-- The mistake in one line. -/
def UsageError.message : UsageError → String
  | unknownArgument argument => s!"unexpected argument '{argument}'"
  | repeatedFlag flag => s!"the argument '{flag.spelling}' cannot be used multiple times"
  | repeatedChoice choice => s!"the argument '{choice.spelling}' cannot be used multiple times"
  | missingValue choice => s!"a value is required for '{choice.spelling}'"
  | badValue choice value => s!"invalid value '{value}' for '{choice.spelling}'"
  | unwantedValue value => s!"unexpected value '{value}'"
  | badVariable name value => s!"invalid value '{value}' of '{name}'"
  | missingCommand => "a command is required"

/-! ## The record -/

/-- An option whose value is not recorded yet: `none` while the value is still to
come. -/
structure Pending where
  choice : Choice
  value : Option String

/-- What was given so far. -/
structure Given where
  flags : List Flag := []
  config : Option String := none
  policy : Option Policy := none
  format : Option ListingFormat := none
  source : Option String := none
  pending : Option Pending := none

namespace Given

/-- Records a flag. -/
def raise (given : Given) (flag : Flag) : Except UsageError Given :=
  if flag ∈ given.flags then .error (.repeatedFlag flag)
  else .ok { given with flags := flag :: given.flags }

/-- Records a value of a kind in a place that must be empty. -/
def fill {α : Type} (choice : Choice) (text : String) (old value? : Option α)
    (record : α → Given) : Except UsageError Given :=
  match value?, old with
  | some value, none => .ok (record value)
  | some _, some _ => .error (.repeatedChoice choice)
  | none, _ => .error (.badValue choice text)

/-- Records the value of an option.  A path must not be empty; a policy and a
format must be known. -/
def choose (given : Given) (choice : Choice) (text : String) : Except UsageError Given :=
  match choice with
  | .config =>
    fill choice text given.config (if text.isEmpty then none else some text)
      ({ given with config := some · })
  | .policy =>
    fill choice text given.policy (Policy.ofName? text) ({ given with policy := some · })
  | .format =>
    fill choice text given.format (ListingFormat.ofName? text) ({ given with format := some · })

/-- Records the pending option, if there is one. -/
def settle (given : Given) : Except UsageError Given :=
  match given.pending with
  | none => .ok given
  | some ⟨choice, none⟩ => .error (.missingValue choice)
  | some ⟨choice, some text⟩ => { given with pending := none }.choose choice text

/-- Is an option waiting for its value? -/
def awaitsValue (given : Given) : Option Choice :=
  match given.pending with
  | some ⟨choice, none⟩ => some choice
  | _ => none

end Given

end PoxTokens.CommandLine
