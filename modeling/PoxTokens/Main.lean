import PoxTokens.CommandLine.Run
import Std.Time.Format

/-!
# PoxTokens.Main

The program.  It collects what a command line needs, asks the pure part what to
do, and writes what that leaves behind.
-/

namespace PoxTokens

open CommandLine

/-! ## Files -/

/-- The number of an error of the operating system, whichever sign it is reported
with. -/
def errorNumber (code : UInt32) : Nat := if code < 0x80000000 then code.toNat else (-code).toNat

/-- What is found at a path of the disk.  A path that cannot be examined counts as
absent, whatever the reason. -/
def diskStatus (path : String) : IO FileStatus := do
  let examined ← (IO.FS.realPath path).toBaseIO
  match examined with
  | .error _ => pure .absent
  | .ok _ =>
    try
      let bytes ← IO.FS.readBinFile path
      pure (.file bytes)
    catch
      | .inappropriateType file code details =>
        if errorNumber code = 21 then pure .directory
        else pure (.unreadable (toString (IO.Error.inappropriateType file code details)))
      | e => pure (.unreadable (toString e))

/-! ## The input -/

/-- An error of the input. -/
def readError (e : IO.Error) : ReadError :=
  { kind := match e with
      | .interrupted .. => .interrupted
      | _ => .other
    detail := toString e }

/-- One read of a stream after another, up to its end or to an error that ends the
reading. -/
partial def readInput (stream : IO.FS.Stream) (sofar : List ReadResult) :
    IO (List ReadResult) := do
  let read ← (stream.read 65536).toBaseIO
  match read with
  | .ok chunk =>
    if chunk.isEmpty then pure sofar.reverse else readInput stream (.ok chunk :: sofar)
  | .error e =>
    let read : ReadResult := .error (readError e)
    match e with
    | .interrupted .. => readInput stream (read :: sofar)
    | _ => pure (read :: sofar).reverse

/-! ## Surroundings -/

/-- The variables that may matter to the program. -/
def variableNames : List String :=
  ["POXT_VERBOSE", "POXT_CONFIG", "POXT_NO_COLOR", "HOME", "XDG_CONFIG_HOME"]

/-- Looks a name up in a list of pairs. -/
def lookUp {α : Type} (pairs : List (String × α)) (name : String) : Option α :=
  (pairs.find? (·.1 == name)).map (·.2)

/-- The home directory that the database of accounts has for the running user. -/
def accountHome? : IO (Option String) := do
  try
    let status ← IO.FS.lines "/proc/self/status"
    let accounts ← IO.FS.lines "/etc/passwd"
    let user? := do
      let line ← status.find? (·.startsWith "Uid:")
      (((line.drop 4).toString.replace "\t" " ").splitOn " ").find? fun word => !word.isEmpty
    pure (accounts.toList.findSome? fun account =>
      match account.splitOn ":" with
      | [_, _, user, _, _, home, _] => if some user = user? then some home else none
      | _ => none)
  catch _ => pure none

/-- The directories of the user: variables name them, or else the account has a
home directory, and the settings are below the home directory. -/
def userDirectories (env : String → Option String) : IO UserDirectories := do
  let home ←
    match env "HOME" with
    | some home => if home.isEmpty then accountHome? else pure (some home)
    | none => accountHome?
  let own? := (env "XDG_CONFIG_HOME").filter (·.startsWith "/")
  pure { home, config := own?.or (home.map (joinPath · ".config")) }

/-- The current time of day and date in universal time, to the microsecond. -/
def currentTime : IO String := do
  let now := Std.Time.DateTime.ofTimestamp (← Std.Time.Timestamp.now) .UTC
  pure (now.format "uuuu-MM-dd'T'HH:mm:ss.SSSSSS'Z'")

/-- Runs the program and answers with its exit code. -/
def runProgram (arguments : List String) : IO UInt32 := do
  let values ← variableNames.mapM fun name => do pure (name, ← IO.getEnv name)
  let env name := (lookUp values name).join
  let directories ← userDirectories env
  let found ← (lookedPaths env directories arguments).mapM fun path => do
    pure (path, ← diskStatus path)
  let input ← if needsInput env arguments then readInput (← IO.getStdin) [] else pure []
  let time ← currentTime
  let look path := (lookUp found path).getD .absent
  let outcome := run { env, look, directories, input } time arguments
  (← IO.getStdout).write (ByteArray.mk outcome.output.toArray)
  (← IO.getStderr).putStr outcome.errors
  pure outcome.exitCode.toUInt32

end PoxTokens

def main (arguments : List String) : IO UInt32 := PoxTokens.runProgram arguments
