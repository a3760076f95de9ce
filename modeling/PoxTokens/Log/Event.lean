import PoxTokens.Policy
import PoxTokens.Scan

/-!
# PoxTokens.Log.Event

What the library reports while it works.  An event is a cause; its level, its
message and its fields are read off it.
-/

namespace PoxTokens

/-- How detailed an event is. -/
inductive Level where
  | trace
  | debug
  deriving DecidableEq, Repr

/-- The level as log lines spell it. -/
def Level.name : Level → String
  | trace => "TRACE"
  | debug => "DEBUG"

/-- The value of a field of an event. -/
inductive FieldValue where
  | number (n : Nat)
  | text (s : String)
  /-- Text that is shown as it stands. -/
  | verbatim (s : String)
  deriving DecidableEq, Repr

/-- Something worth a line in a log. -/
inductive Event where
  /-- A source is about to be listed. -/
  | listing (bytes : Nat) (policy : Policy)
  /-- A token was scanned. -/
  | token (kind : Kind) (position length : Nat)
  /-- A source was scanned to its end. -/
  | scanned (tokens bytes : Nat) (policy : Policy)
  /-- A scan ended before a character that no rule recognises. -/
  | scanFailed (offset : Nat) (found : Char)
  /-- A listing was written. -/
  | listed (bytes total shown : Nat)
  /-- There is no settings file. -/
  | noSettings
  /-- A settings file was read. -/
  | settingsLoaded (path : String)
  deriving DecidableEq, Repr

namespace Event

/-- Single tokens are details; all else is of interest to someone who looks for
a fault. -/
def level : Event → Level
  | token .. => .trace
  | _ => .debug

/-- What happened, in words. -/
def message : Event → String
  | listing .. => "tokenizing source"
  | token .. => "token"
  | scanned .. => "lexing finished"
  | scanFailed .. => "lexing failed"
  | listed bytes .. => s!"tokenized {bytes} bytes"
  | noSettings => "no configuration file found, using defaults"
  | settingsLoaded .. => "loaded configuration"

/-- The particulars, in the order in which they are shown. -/
def fields : Event → List (String × FieldValue)
  | listing bytes policy => [("bytes", .number bytes), ("policy", .text policy.name)]
  | token kind position length =>
    [("kind", .text kind.name), ("position", .number position), ("len", .number length)]
  | scanned tokens bytes policy =>
    [("tokens", .number tokens), ("bytes", .number bytes), ("policy", .text policy.name)]
  | scanFailed offset found =>
    [("offset", .number offset), ("found", .verbatim (quotedChar found))]
  | listed _ total shown => [("total", .number total), ("shown", .number shown)]
  | noSettings => []
  | settingsLoaded path => [("path", .verbatim path)]

end Event

/-! ## Events of a scan -/

/-- The event of a token that was scanned. -/
def Token.event (t : Token) : Event := .token t.kind t.position t.length

/-- The event that ends a scan of a whole source. -/
def scanEvent (options : ScanOptions) (source : String) :
    Except LexError (List Token) → Event
  | .ok tokens => .scanned tokens.length source.utf8ByteSize options.policy
  | .error e => .scanFailed e.offset e.found

end PoxTokens
