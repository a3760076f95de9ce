import PoxTokens.Text.Quoted
import PoxTokens.Toml.Value

/-!
# PoxTokens.Toml.Scalar

Values that are written without quotes: truth values, integers, floats, dates
and times.
-/

namespace PoxTokens.Toml

/-! ## Digits -/

/-- The digits of a run in which a single underscore may stand between two
digits. -/
def plainDigits? (isDigit : Char → Bool) : List Char → Option (List Char)
  | [] => none
  | [c] => if isDigit c then some [c] else none
  | c :: '_' :: rest => if isDigit c then (plainDigits? isDigit rest).map (c :: ·) else none
  | c :: rest => if isDigit c then (plainDigits? isDigit rest).map (c :: ·) else none

/-- The digits of a whole number: a leading zero stands alone. -/
def wholeDigits? (cs : List Char) : Option (List Char) :=
  match plainDigits? Char.isDigit cs with
  | some ['0'] => some ['0']
  | some ('0' :: _) => none
  | digits? => digits?

/-- Splits off a sign; the first part says whether it is a minus. -/
def splitSign : List Char → Bool × List Char
  | '-' :: cs => (true, cs)
  | '+' :: cs => (false, cs)
  | cs => (false, cs)

/-! ## Integers -/

/-- The value of digits of a base. -/
def baseValue? (base : Nat) (cs : List Char) : Option Nat :=
  let isDigit (c : Char) : Bool := (hexDigit? c).any (· < base)
  (plainDigits? isDigit cs).map fun digits =>
    digits.foldl (fun value c => base * value + (hexDigit? c).getD 0) 0

/-- How many integers of 64 bits are not negative. -/
def integerBound : Nat := 0x8000000000000000

/-- An integer in decimal digits with an optional sign, or without a sign in
hexadecimal, octal or binary digits; it fits 64 bits. -/
def integer? (cs : List Char) : Option Int :=
  let n? : Option Int :=
    match cs with
    | '0' :: 'x' :: digits => (baseValue? 16 digits).map Int.ofNat
    | '0' :: 'o' :: digits => (baseValue? 8 digits).map Int.ofNat
    | '0' :: 'b' :: digits => (baseValue? 2 digits).map Int.ofNat
    | _ =>
      let (negative, digits) := splitSign cs
      (wholeDigits? digits).map fun digits =>
        let n : Int := Nat.ofDigitChars 10 digits 0
        if negative then -n else n
  n?.filter fun n => -integerBound ≤ n && n < integerBound

/-! ## Floats -/

/-- Does a decimal number with these digits, the last of which counts `10 ^ e`,
round to infinity in double precision?  It does from halfway between the largest
finite number and the power of two above it. -/
def roundsToInfinity (digits : List Char) (e : Int) : Bool :=
  let m := Nat.ofDigitChars 10 digits 0
  let limit := Nat.pow 2 1024 - Nat.pow 2 970
  let magnitude : Int := (Nat.toDigits 10 m).length + e
  if m = 0 then false
  else if 310 < magnitude then true
  else if magnitude < 300 then false
  else limit * Nat.pow 10 (-e).toNat ≤ m * Nat.pow 10 e.toNat

/-- The exponent behind the digits of a float: none at all, or a letter and
digits with an optional sign. -/
def exponent? : List Char → Option Int
  | [] => some 0
  | c :: cs =>
    if c = 'e' ∨ c = 'E' then
      let (negative, digits) := splitSign cs
      (plainDigits? Char.isDigit digits).map fun digits =>
        let n : Int := Nat.ofDigitChars 10 digits 0
        if negative then -n else n
    else none

/-- Does the character start an exponent? -/
def isExponentMark (c : Char) : Bool := c == 'e' || c == 'E'

/-- All digits of a float without its sign, and the power of ten that the last
one counts. -/
def floatParts? (cs : List Char) : Option (List Char × Int) := do
  let whole ← wholeDigits? (cs.takeWhile fun c => c != '.' && !isExponentMark c)
  match cs.dropWhile fun c => c != '.' && !isExponentMark c with
  | [] => none
  | '.' :: tail =>
    let digits ← plainDigits? Char.isDigit (tail.takeWhile fun c => !isExponentMark c)
    let e ← exponent? (tail.dropWhile fun c => !isExponentMark c)
    pure (whole ++ digits, e - digits.length)
  | tail =>
    let e ← exponent? tail
    pure (whole, e)

/-- Is it a float?  One without a minus must not be beyond the finite ones. -/
def isFloat (cs : List Char) : Bool :=
  let (negative, rest) := splitSign cs
  if rest = ['i', 'n', 'f'] ∨ rest = ['n', 'a', 'n'] then true
  else
    match floatParts? rest with
    | none => false
    | some (digits, e) => negative || !roundsToInfinity digits e

/-! ## Dates and times -/

/-- The value of exactly so many digits, and what follows them. -/
def fixedDigits? (count : Nat) (cs : List Char) : Option (Nat × List Char) :=
  let digits := cs.take count
  if digits.length = count ∧ digits.all Char.isDigit then
    some (Nat.ofDigitChars 10 digits 0, cs.drop count)
  else none

/-- What follows a character. -/
def after? (c : Char) : List Char → Option (List Char)
  | d :: rest => if d = c then some rest else none
  | [] => none

/-- Does the year have a 29th of February? -/
def isLeapYear (year : Nat) : Bool :=
  year % 4 == 0 && (year % 100 != 0 || year % 400 == 0)

/-- The number of days of a month. -/
def daysInMonth (year month : Nat) : Nat :=
  if month = 2 then if isLeapYear year then 29 else 28
  else if month = 4 ∨ month = 6 ∨ month = 9 ∨ month = 11 then 30
  else 31

/-- What follows a date of the calendar. -/
def afterDate? (cs : List Char) : Option (List Char) := do
  let (year, cs) ← fixedDigits? 4 cs
  let cs ← after? '-' cs
  let (month, cs) ← fixedDigits? 2 cs
  let cs ← after? '-' cs
  let (day, cs) ← fixedDigits? 2 cs
  if 1 ≤ month ∧ month ≤ 12 ∧ 1 ≤ day ∧ day ≤ daysInMonth year month then some cs else none

/-- What follows hours and minutes. -/
def afterMinutes? (cs : List Char) : Option (List Char) := do
  let (hour, cs) ← fixedDigits? 2 cs
  let cs ← after? ':' cs
  let (minute, cs) ← fixedDigits? 2 cs
  if hour ≤ 23 ∧ minute ≤ 59 then some cs else none

/-- What follows a time of the day; the second 60 is a leap second. -/
def afterTime? (cs : List Char) : Option (List Char) := do
  let cs ← afterMinutes? cs
  let cs ← after? ':' cs
  let (second, cs) ← fixedDigits? 2 cs
  if 60 < second then none
  else
    match cs with
    | '.' :: rest =>
      if (rest.takeWhile Char.isDigit).isEmpty then none else some (rest.dropWhile Char.isDigit)
    | _ => some cs

/-- What follows an offset from universal time. -/
def afterOffset? : List Char → Option (List Char)
  | 'Z' :: cs => some cs
  | 'z' :: cs => some cs
  | '+' :: cs => afterMinutes? cs
  | '-' :: cs => afterMinutes? cs
  | cs => some cs

/-- Is it a time and, perhaps, an offset? -/
def isTimeWithOffset (cs : List Char) : Bool :=
  match afterTime? cs with
  | some rest => afterOffset? rest == some []
  | none => false

/-- Is it a date, a time, or a date and a time? -/
def isMoment (cs : List Char) : Bool :=
  match afterDate? cs with
  | some [] => true
  | some (c :: rest) => (c == 'T' || c == 't' || c == ' ') && isTimeWithOffset rest
  | none => afterTime? cs == some []

/-! ## Values -/

/-- The value that is written without quotes. -/
def scalar? (cs : List Char) : Option Value :=
  if cs = ['t', 'r', 'u', 'e'] then some (.boolean true)
  else if cs = ['f', 'a', 'l', 's', 'e'] then some (.boolean false)
  else
    match integer? cs with
    | some n => some (.integer n)
    | none =>
      if isFloat cs then some (.float (String.ofList cs))
      else if isMoment cs then some (.moment (String.ofList cs))
      else none

end PoxTokens.Toml
