import PoxTokens.Text.Bytes
import PoxTokens.Text.Quoted

/-!
# PoxTokens.LexError

The report on a place of a source that no rule recognises.
-/

namespace PoxTokens

/-- No rule recognises the text at an offset. -/
structure LexError where
  /-- Byte offset of the character. -/
  offset : Nat
  /-- The characters just before the offset, as many as the scan keeps. -/
  context : String
  /-- The character at the offset; NUL at the end of the source. -/
  found : Char
  deriving DecidableEq, Repr

namespace LexError

/-- The byte offset in a text where its last characters start, as many as the width
allows.  They are counted from the end; a text that has fewer counts as a whole. -/
def contextStart (width : Nat) (before : List Char) : Nat :=
  if width = 0 then byteLength before
  else
    match (charOffsets 0 before).reverse[width - 1]? with
    | some (start, _) => start
    | none => 0

/-- The report in one line. -/
def message (e : LexError) : String :=
  s!"unrecognized character {quotedChar e.found} at offset {e.offset} " ++
    s!"(after {quotedString e.context})"

end LexError

/-- The report on a byte offset.  An offset past the end names the end, one
inside a character the start of that character. -/
def LexError.at (source : List Char) (offset width : Nat) : LexError :=
  let place := (stepBack? (String.ofList source) (min offset (byteLength source))).getD 0
  let (before, after) := (splitAtByte? place source).getD ([], source)
  { offset := place
    context := String.ofList ((splitAtByte? (contextStart width before) before).elim [] (·.2))
    found := after.head?.getD '\x00' }

end PoxTokens
