import PoxTokens.Cursor
import PoxTokens.Policy

/-!
# PoxTokens.Walk

Matching over bytes.  A pattern walks a cursor over the bytes of a source, from any
byte offset on, and reports how many bytes it passed; whether they are whole
characters it does not ask.  The rules of the table do so one after the other, and a
policy picks one of their finds by the numbers of bytes.
-/

namespace PoxTokens

/-- Passes bytes as long as they are the codes of characters of a class. -/
def Cursor.eatClass (c : Cursor) (p : Char → Bool) : Cursor :=
  (c.eatWhile (fun _ b => (p (Char.ofUInt8 b), ())) ()).2

namespace Pattern

/-- Where a cursor stands behind the match of a pattern.  A pattern that does not
match leaves the cursor where it is. -/
def walk (c : Cursor) : Pattern → Cursor
  | literal text => if c.startsWith text then c.advanceBy text.utf8ByteSize else c
  | string =>
    match c.matchByte '"'.toUInt8 with
    | (true, inside) => ((inside.eatUntil '"'.toUInt8).matchByte '"'.toUInt8).2
    | (false, _) => c
  | number =>
    let whole := c.eatClass Char.isDigit
    if whole.position = c.position then c
    else if whole.current? = some '.'.toUInt8 ∧
        (whole.peek? 1).any fun b => (Char.ofUInt8 b).isDigit then
      whole.advance.eatClass Char.isDigit
    else whole
  | blank => c.eatClass (· == ' ')
  | identifier =>
    if c.current?.any fun b => (Char.ofUInt8 b).isAlpha then c.eatClass Char.isAlphanum else c

/-- How many bytes of a source the pattern matches at an offset; no match is empty. -/
def matchBytes? (p : Pattern) (source : String) (offset : Nat) : Option Nat :=
  let passed := (p.walk (Cursor.startingAt source offset)).consumed
  if passed = 0 then none else some passed

end Pattern

/-- What a rule finds at an offset of a source: its kind, and how many bytes it takes. -/
def Rule.matchBytes? (rule : Rule) (source : String) (offset : Nat) : Option (Kind × Nat) :=
  (rule.pattern.matchBytes? source offset).map fun size => (rule.kind, size)

/-- The longer of two finds, and the earlier one if they are equally long. -/
def longerFind (best : Option (Kind × Nat)) (found : Kind × Nat) : Option (Kind × Nat) :=
  match best with
  | none => some found
  | some kept => if kept.2 < found.2 then some found else some kept

namespace Policy

/-- Chooses among what the rules find, given in rule order, by the numbers of bytes. -/
def chooseFind : Policy → List (Kind × Nat) → Option (Kind × Nat)
  | longest, finds => finds.foldl longerFind none
  | firstMatch, finds => finds.head?

/-- What the table finds at an offset of a source; nothing at its end and past it. -/
def matchBytes? (policy : Policy) (source : String) (offset : Nat) : Option (Kind × Nat) :=
  if source.utf8ByteSize ≤ offset then none
  else policy.chooseFind (ruleTable.filterMap (·.matchBytes? source offset))

end Policy

end PoxTokens
