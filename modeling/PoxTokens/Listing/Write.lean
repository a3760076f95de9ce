import PoxTokens.Failure
import PoxTokens.Listing
import PoxTokens.Sink
import PoxTokens.TokenStream

/-!
# PoxTokens.Listing.Write

Scanning a source and writing the listing of its tokens.  A source that cannot
be scanned writes nothing.  A JSON document and the line break behind it are two
writes, so a sink that is full says which of them did not fit.
-/

namespace PoxTokens

/-- Writes characters to a sink; a write that does not fit is the given
failure. -/
def writeChars (sink : Sink) (failure : String → Failure) (cs : List Char) :
    Except Failure Unit × Sink :=
  let (sink', fits) := sink.write (utf8Bytes cs)
  (if fits then .ok () else .error (failure Sink.fullMessage), sink')

/-- Writes a listing in a format. -/
def Listing.write (listing : Listing) (format : ListingFormat) (sink : Sink) :
    Except Failure Unit × Sink :=
  match format with
  | .text => writeChars sink .io listing.textChars
  | .json =>
    match writeChars sink .json (Json.prettyChars 0 listing.json) with
    | (.ok (), sink') => writeChars sink' .io ['\n']
    | failed => failed

/-- A source to be listed, and how. -/
structure ListingRequest where
  source : String
  options : ScanOptions := {}
  format : ListingFormat := .text
  /-- List blanks too. -/
  keepBlanks : Bool := false
  /-- Count the kinds of the listed tokens. -/
  stats : Bool := false

namespace ListingRequest

/-- The tokens to be listed among those of the source. -/
def shown (request : ListingRequest) (tokens : List Token) : List Token :=
  if request.keepBlanks then tokens else significant tokens

/-- The listing of the tokens of the source. -/
def listing (request : ListingRequest) (tokens : List Token) : Listing :=
  let shown := request.shown tokens
  ⟨shown, if request.stats then some (kindCounts shown) else none⟩

/-- Scans the source and writes the listing.  The result is the number of
listed tokens. -/
def run (request : ListingRequest) (sink : Sink) : Logged (Except Failure Nat × Sink) := do
  let bytes := request.source.utf8ByteSize
  Logged.report (.listing bytes request.options.policy)
  match ← tokenizeLogged request.options request.source with
  | .error e => pure (.error (.lex e), sink)
  | .ok tokens =>
    let listing := request.listing tokens
    match listing.write request.format sink with
    | (.error failure, sink') => pure (.error failure, sink')
    | (.ok (), sink') =>
      Logged.report (.listed bytes tokens.length listing.tokens.length)
      pure (.ok listing.tokens.length, sink')

end ListingRequest

/-- Writes the listing of the table of rules. -/
def writeRules (sink : Sink) : Except Failure Unit × Sink := writeChars sink .io ruleLines

end PoxTokens
