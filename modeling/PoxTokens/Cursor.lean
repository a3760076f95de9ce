/-!
# PoxTokens.Cursor

A cursor over the bytes of a text.  It remembers where it started and never
leaves the text: an operation that would pass the end stops there.
`CursorOp.run` performs a list of operations with one slot for a saved cursor.
-/

namespace PoxTokens

/-- A place among the bytes of a text. -/
structure Cursor where
  bytes : Array UInt8
  /-- The offset where the cursor started. -/
  start : Nat
  position : Nat

namespace Cursor

/-- A cursor at a byte offset; an offset past the end names the end. -/
def startingAt (text : String) (offset : Nat) : Cursor :=
  let bytes := text.toUTF8.data
  ⟨bytes, min offset bytes.size, min offset bytes.size⟩

/-- A cursor at the start of a text. -/
def ofText (text : String) : Cursor := startingAt text 0

/-- Number of bytes passed since the start. -/
def consumed (c : Cursor) : Nat := c.position - c.start

/-- Is there no byte left? -/
def isAtEnd (c : Cursor) : Bool := c.bytes.size ≤ c.position

/-- The byte a number of places ahead. -/
def peek? (c : Cursor) (ahead : Nat) : Option UInt8 := c.bytes[c.position + ahead]?

/-- The byte at the cursor. -/
def current? (c : Cursor) : Option UInt8 := c.peek? 0

/-- Do the bytes of a text come next? -/
def startsWith (c : Cursor) (text : String) : Bool :=
  text.toUTF8.data.toList.isPrefixOf (c.bytes.toList.drop c.position)

/-- Passes a number of bytes, or all if there are fewer. -/
def advanceBy (c : Cursor) (count : Nat) : Cursor :=
  { c with position := min (c.position + count) c.bytes.size }

/-- Passes one byte, if there is one. -/
def advance (c : Cursor) : Cursor :=
  if c.isAtEnd then c else { c with position := c.position + 1 }

/-- Passes the byte at the cursor if it is the expected one, and says whether it
was. -/
def matchByte (c : Cursor) (expected : UInt8) : Bool × Cursor :=
  if c.current? = some expected then (true, { c with position := c.position + 1 })
  else (false, c)

/-- Passes bytes as long as a question about each is answered yes.  The question
may remember what it was asked before: it takes its memory and the byte, and
answers with its new memory. -/
def eatWhile {σ : Type} (ask : σ → UInt8 → Bool × σ) (memory : σ) (c : Cursor) : σ × Cursor :=
  if h : c.position < c.bytes.size then
    match ask memory c.bytes[c.position] with
    | (true, memory') => eatWhile ask memory' { c with position := c.position + 1 }
    | (false, memory') => (memory', c)
  else (memory, c)
termination_by c.bytes.size - c.position

/-- Passes bytes until a given one comes next. -/
def eatUntil (c : Cursor) (needle : UInt8) : Cursor :=
  (eatWhile (fun _ b => (b != needle, ())) () c).2

end Cursor

/-! ## Scripts -/

/-- A question about a byte. -/
inductive ByteTest where
  | digit
  | letter
  | letterOrDigit
  | space
  /-- Not an ASCII byte. -/
  | high
  | any
  | never
  /-- Yes to the first questions, however many are named, and no from then on. -/
  | first (count : Nat)
  deriving DecidableEq, Repr

/-- The answer to a question about a byte, given how often it was asked before. -/
def ByteTest.ask (test : ByteTest) (asked : Nat) (b : UInt8) : Bool × Nat :=
  let c := Char.ofNat b.toNat
  let answer : Bool :=
    match test with
    | digit => c.isDigit
    | letter => c.isAlpha
    | letterOrDigit => c.isAlphanum
    | space => b == 0x20
    | high => 0x80 ≤ b
    | any => true
    | never => false
    | first count => asked < count
  (answer, asked + 1)

/-- An operation on a cursor. -/
inductive CursorOp where
  | current
  | peek (ahead : Nat)
  | startsWith (text : String)
  | advance
  | advanceBy (count : Nat)
  | matchByte (expected : UInt8)
  | eatUntil (needle : UInt8)
  | eatWhile (test : ByteTest)
  /-- Put a copy of the cursor into the slot. -/
  | save
  /-- Go on from a copy of what the slot holds. -/
  | restore
  deriving DecidableEq, Repr

/-- What an operation answers. -/
inductive CursorAnswer where
  | nothing
  | byte (b : UInt8)
  | truth (b : Bool)
  | count (n : Nat)
  deriving DecidableEq, Repr

/-- The answer to an operation and what the cursor shows after it. -/
structure CursorStep where
  answer : CursorAnswer
  position : Nat
  consumed : Nat
  isAtEnd : Bool
  deriving DecidableEq, Repr

namespace CursorOp

/-- A byte if there is one. -/
def byteAnswer : Option UInt8 → CursorAnswer
  | some b => .byte b
  | none => .nothing

/-- Performs one operation on a cursor and a slot. -/
def step (c slot : Cursor) : CursorOp → CursorAnswer × Cursor × Cursor
  | current => (byteAnswer c.current?, c, slot)
  | peek ahead => (byteAnswer (c.peek? ahead), c, slot)
  | startsWith text => (.truth (c.startsWith text), c, slot)
  | advance => (.nothing, c.advance, slot)
  | advanceBy count => (.nothing, c.advanceBy count, slot)
  | matchByte expected =>
    let (found, c') := c.matchByte expected
    (.truth found, c', slot)
  | eatUntil needle =>
    let c' := c.eatUntil needle
    (.count (c'.position - c.position), c', slot)
  | eatWhile test =>
    let (_, c') := c.eatWhile test.ask 0
    (.count (c'.position - c.position), c', slot)
  | save => (.nothing, c, c)
  | restore => (.nothing, slot, slot)

/-- Performs operations in order and records what the cursor shows after each. -/
def runFrom (c slot : Cursor) : List CursorOp → List CursorStep
  | [] => []
  | op :: ops =>
    let (answer, c', slot') := step c slot op
    ⟨answer, c'.position, c'.consumed, c'.isAtEnd⟩ :: runFrom c' slot' ops

/-- Performs operations on a fresh cursor; the slot starts as a copy of it. -/
def run (fresh : Cursor) (ops : List CursorOp) : List CursorStep := runFrom fresh fresh ops

end CursorOp

end PoxTokens
