/-!
# PoxTokens.Sink

Somewhere to write bytes to, with or without a limit.  A write that does not
fit fills the sink up and fails.
-/

namespace PoxTokens

/-- What was written so far, and how much may be written in all. -/
structure Sink where
  limit : Option Nat
  written : List UInt8 := []

namespace Sink

/-- How many bytes of a write fit. -/
def room (sink : Sink) (size : Nat) : Nat :=
  match sink.limit with
  | none => size
  | some limit => min size (limit - sink.written.length)

/-- Writes as many of the bytes as fit and says whether all did. -/
def write (sink : Sink) (bytes : List UInt8) : Sink × Bool :=
  let fitting := sink.room bytes.length
  ({ sink with written := sink.written ++ bytes.take fitting }, fitting == bytes.length)

/-- What a failed write says. -/
def fullMessage : String := "failed to write whole buffer"

end Sink

end PoxTokens
