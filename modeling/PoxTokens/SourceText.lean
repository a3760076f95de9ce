import PoxTokens.Failure

/-!
# PoxTokens.SourceText

Where the text of a source comes from: it is given inline, or it is read from
the input.  What is read loses one line break at its end, since the break
belongs to the way of giving the text and no rule recognises it.
-/

namespace PoxTokens

/-! ## Reading -/

/-- The kinds of errors of a reader, as far as they are told apart. -/
inductive ErrorKind where
  /-- The data is not of the right form. -/
  | invalidData
  /-- The read was interrupted, and may be tried again. -/
  | interrupted
  | other
  deriving DecidableEq, Repr

/-- An error of a reader. -/
structure ReadError where
  kind : ErrorKind
  /-- What happened, in words. -/
  detail : String
  deriving DecidableEq, Repr

/-- What one read of the input gives: some bytes, none at the end of the input,
or an error. -/
abbrev ReadResult := Except ReadError ByteArray

/-- Reads on to the end of the input.  A read that was interrupted is tried
again; any other error ends the reading, and what was read before is lost. -/
def readToEnd (sofar : ByteArray) : List ReadResult → Except ReadError ByteArray
  | [] => .ok sofar
  | .ok chunk :: reads =>
    if chunk.isEmpty then .ok sofar else readToEnd (sofar ++ chunk) reads
  | .error e :: reads => if e.kind = .interrupted then readToEnd sofar reads else .error e

/-- Reads on to the end of an input that must be text. -/
def readToString (reads : List ReadResult) : Except ReadError String := do
  let bytes ← readToEnd ByteArray.empty reads
  match String.fromUTF8? bytes with
  | some text => .ok text
  | none => .error ⟨.invalidData, "stream did not contain valid UTF-8"⟩

/-! ## The source -/

/-- The argument that asks for the input in place of an inline source. -/
def inputMarker : String := "-"

/-- Drops one line break at the end: a line feed, and a carriage return before
it. -/
def dropLineBreak (cs : List Char) : List Char :=
  match cs.reverse with
  | '\n' :: '\r' :: before => before.reverse
  | '\n' :: before => before.reverse
  | _ => cs

/-- How an error of the reader is reported. -/
def ReadError.failure (e : ReadError) : Failure :=
  match e.kind with
  | .invalidData => .sourceNotText
  | _ => .io e.detail

/-- The text of the input. -/
def inputText (reads : List ReadResult) : Except Failure String :=
  match readToString reads with
  | .ok text => .ok (String.ofList (dropLineBreak text.toList))
  | .error e => .error e.failure

/-- The text of a source: the inline text, or that of the input if there is
none or the marker stands in its place. -/
def sourceText (inline? : Option String) (reads : List ReadResult) : Except Failure String :=
  match inline? with
  | some text => if text = inputMarker then inputText reads else .ok text
  | none => inputText reads

end PoxTokens
