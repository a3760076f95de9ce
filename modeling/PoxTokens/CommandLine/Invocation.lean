import PoxTokens.CommandLine.Level

/-!
# PoxTokens.CommandLine.Invocation

What a command line asks for.  Where a flag or option is not given at a level, a
variable of the surroundings stands in for it there, and must be well formed.  A
value given behind the command wins over one given before it, and both win over
a variable.
-/

namespace PoxTokens.CommandLine

/-- What is asked of the listing of a source, over and above the settings. -/
structure TokenizeRequest where
  source : Option String
  policy : Option Policy
  format : Option ListingFormat
  keepBlanks : Bool
  emitEof : Bool
  stats : Bool

/-- A command with its arguments. -/
inductive Command where
  | tokenize (request : TokenizeRequest)
  | rules

/-- What a command line asks for. -/
structure Invocation where
  verbose : Bool
  noColour : Bool
  config : Option String
  command : Command

/-! ## Variables -/

/-- The variable that stands in for a flag. -/
def Flag.variableName : Flag → Option String
  | .verbose => some "POXT_VERBOSE"
  | .noColour => some "POXT_NO_COLOR"
  | _ => none

/-- The variable that stands in for the path of the settings. -/
def configVariable : String := "POXT_CONFIG"

/-- The truth value that a text names. -/
def truth? : String → Option Bool
  | "true" => some true
  | "false" => some false
  | _ => none

/-- What a level says of a flag: given, or as its variable says. -/
structure FlagValue where
  given : Bool
  fallback : Bool

/-- What a level and the variables say of a flag. -/
def flagValue (env : String → Option String) (given : Given) (flag : Flag) :
    Except UsageError FlagValue :=
  if flag ∈ given.flags then .ok ⟨true, false⟩
  else
    match flag.variableName.bind fun name => (env name).map (name, ·) with
    | none => .ok ⟨false, false⟩
    | some (name, text) =>
      match truth? text with
      | some b => .ok ⟨false, b⟩
      | none => .error (.badVariable name text)

/-- What a level and the variables say of the path of the settings: the path
that is given, and the one of the variable. -/
def configValue (env : String → Option String) (given : Given) :
    Except UsageError (Option String × Option String) :=
  match given.config, env configVariable with
  | some path, _ => .ok (some path, none)
  | none, some path =>
    if path.isEmpty then .error (.badVariable configVariable path) else .ok (none, some path)
  | none, none => .ok (none, none)

/-- What a level says of the names that both levels know. -/
structure SharedValues where
  verbose : FlagValue
  noColour : FlagValue
  config : Option String × Option String

/-- Records what is pending at a level and asks the variables for the rest. -/
def finishLevel (env : String → Option String) (given : Given) :
    Except UsageError (Given × SharedValues) := do
  let given ← given.settle
  let verbose ← flagValue env given .verbose
  let config ← configValue env given
  let noColour ← flagValue env given .noColour
  pure (given, { verbose, noColour, config })

/-- A flag is set if a level gives it, and else as its variable says. -/
def FlagValue.merge (outer inner : FlagValue) : Bool :=
  outer.given || inner.given || outer.fallback || inner.fallback

/-- The command of a level. -/
def Given.command (given : Given) : CommandName → Command
  | .tokenize =>
    .tokenize
      { source := given.source
        policy := given.policy
        format := given.format
        keepBlanks := given.flags.contains .keepBlanks
        emitEof := given.flags.contains .emitEof
        stats := given.flags.contains .stats }
  | .rules => .rules

/-- Reads a command line.  The level of the program is finished last, when the
command behind it has been read. -/
def Invocation.read (env : String → Option String) (arguments : List String) :
    Except Stop Invocation := do
  let (outer, command?) ← Level.program.readArguments {} arguments
  match command? with
  | none => .error (.usage .missingCommand)
  | some (name, rest) =>
    let (inner, _) ← (Level.command name).readArguments {} rest
    let (inner, innerValues) ← Level.orStop (finishLevel env inner)
    let (_, outerValues) ← Level.orStop (finishLevel env outer)
    pure
      { verbose := outerValues.verbose.merge innerValues.verbose
        noColour := outerValues.noColour.merge innerValues.noColour
        config := innerValues.config.1.or (outerValues.config.1.or
          (innerValues.config.2.or outerValues.config.2))
        command := inner.command name }

end PoxTokens.CommandLine
