import PoxTokens.CommandLine.Invocation
import PoxTokens.Listing.Write
import PoxTokens.Log.Line
import PoxTokens.Settings.Load
import PoxTokens.SourceText

/-!
# PoxTokens.CommandLine.Run

What the program does with a command line, as a function of what it finds around
it: variables, files, the directories of the user and the input.  The settings
are read first, whatever the command; flags win over them.  Only a complete
listing reaches the output.
-/

namespace PoxTokens.CommandLine

/-- What the program finds around it. -/
structure Host where
  env : String → Option String
  look : String → FileStatus
  directories : UserDirectories
  /-- What one read of the input after another gives. -/
  input : List ReadResult

/-- What the program leaves behind. -/
structure Outcome where
  exitCode : Nat
  output : List UInt8
  errors : String

/-- The version of the program. -/
def programVersion : String := "0.0.3"

/-! ## Commands -/

/-- The listing that a command asks for, given the settings and the text of the
source: what is asked for wins over the settings. -/
def TokenizeRequest.listing (request : TokenizeRequest) (settings : Settings) (source : String) :
    ListingRequest :=
  { source
    options :=
      { settings.scan with
        policy := request.policy.getD settings.scan.policy
        emitEof := settings.scan.emitEof || request.emitEof }
    format := request.format.getD settings.output.format
    keepBlanks := request.keepBlanks || settings.output.keepBlanks
    stats := request.stats }

/-- Carries out a command with settings and writes to a sink. -/
def Command.run (command : Command) (settings : Settings) (input : List ReadResult)
    (sink : Sink) : Logged (Except Failure Unit × Sink) :=
  match command with
  | .rules => pure (writeRules sink)
  | .tokenize request =>
    match sourceText request.source input with
    | .error failure => pure (.error failure, sink)
    | .ok source => do
      let (result, sink) ← (request.listing settings source).run sink
      pure (result.map fun _ => (), sink)

/-- Reads the settings and carries out the command. -/
def Invocation.run (invocation : Invocation) (host : Host) (sink : Sink) :
    Logged (Except Failure Unit × Sink) := do
  match ← Settings.load host.directories host.look invocation.config with
  | .error failure => pure (.error failure, sink)
  | .ok settings => invocation.command.run settings host.input sink

/-! ## The program -/

/-- The line for a failure. -/
def failureLine (failure : Failure) : String := "poxt: " ++ failure.message ++ "\n"

/-- What carrying out an invocation leaves behind.  The log is shown only on
request. -/
def Invocation.outcome (invocation : Invocation) (host : Host) (time : String) : Outcome :=
  let ⟨events, result, sink⟩ := invocation.run host { limit := none }
  let log := if invocation.verbose then debugLines (!invocation.noColour) time events else ""
  match result with
  | .ok () => ⟨0, sink.written, log⟩
  | .error failure => ⟨1, sink.written, log ++ failureLine failure⟩

/-- How the program is used at a level. -/
def Level.usage : Level → String
  | .program =>
    "Usage: poxt [-v] [-c PATH] [--no-color] [-V] [-h] COMMAND\n\n" ++
    "Print the token stream of Pox source text\n\n" ++
    "Commands:\n" ++
    "  tokenize  Tokenize source text and print the tokens\n" ++
    "  rules     Print the matcher table in priority order\n"
  | .command .tokenize =>
    "Usage: poxt tokenize [-p POLICY] [-F FORMAT] [-w] [--eof] [--stats]" ++
    " [-v] [-c PATH] [--no-color] [-V] [-h] [SOURCE]\n"
  | .command .rules => "Usage: poxt rules [-v] [-c PATH] [--no-color] [-V] [-h]\n"

/-- What an early end of the reading leaves behind. -/
def Stop.outcome : Stop → Outcome
  | .usage e => ⟨2, [], "error: " ++ e.message ++ "\n"⟩
  | .version level => ⟨0, utf8Bytes (level.title ++ " " ++ programVersion ++ "\n").toList, ""⟩
  | .help level => ⟨0, utf8Bytes level.usage.toList, ""⟩

/-- What the program does with a command line. -/
def run (host : Host) (time : String) (arguments : List String) : Outcome :=
  match Invocation.read host.env arguments with
  | .error stop => stop.outcome
  | .ok invocation => invocation.outcome host time

/-! ## What a command line needs -/

/-- The paths at which a command line may look for settings. -/
def lookedPaths (env : String → Option String) (directories : UserDirectories)
    (arguments : List String) : List String :=
  match Invocation.read env arguments with
  | .error _ => []
  | .ok { config := some path, .. } => [path]
  | .ok { config := none, .. } => settingsPaths directories

/-- Does a command line read the input? -/
def needsInput (env : String → Option String) (arguments : List String) : Bool :=
  match Invocation.read env arguments with
  | .ok { command := .tokenize request, .. } =>
    request.source.isNone || request.source == some inputMarker
  | _ => false

end PoxTokens.CommandLine
