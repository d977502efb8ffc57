import ChatMarkup.Text.Blank
import ChatMarkup.Time.Calendar

/-!
# Instants

A point in time and its text as a date, a time of day and an offset.  It is written in UTC; in what
is read, blanks may stand between the parts, and digits may be left out in front.
-/

namespace ChatMarkup

-- Powers are those of the natural numbers.
attribute [local instance (high)] instPowNat

/-- A point in time: whole seconds from the start of 1970 in UTC, and nanoseconds after them.  In a
leap second there is more than one second's worth of nanoseconds. -/
structure Instant where
  seconds : Int
  nanos : Nat
deriving DecidableEq, Repr

namespace Instant

/-! ## Writing -/

/-- A number with at least so many digits. -/
def padded (width n : Nat) : String :=
  let digits := Nat.toDigits 10 n
  String.ofList (List.replicate (width - digits.length) '0' ++ digits)

/-- A year; one of more or less than four digits has a sign. -/
def writeYear (year : Int) : String :=
  if year < 0 then "-" ++ padded 4 year.natAbs
  else if 9999 < year then "+" ++ padded 4 year.natAbs
  else padded 4 year.natAbs

/-- The fraction of a second with as many digits as it needs, in threes. -/
def writeFraction (nanos : Nat) : String :=
  if nanos = 0 then ""
  else if nanos % 1000000 = 0 then "." ++ padded 3 (nanos / 1000000)
  else if nanos % 1000 = 0 then "." ++ padded 6 (nanos / 1000)
  else "." ++ padded 9 nanos

/-- The instant in UTC. -/
def write (instant : Instant) : String :=
  let day := Day.ofNumber (instant.seconds / 86400)
  let time := (instant.seconds % 86400).toNat
  writeYear day.year ++ "-" ++ padded 2 day.month ++ "-" ++ padded 2 day.day ++ "T"
    ++ padded 2 (time / 3600) ++ ":" ++ padded 2 (time / 60 % 60) ++ ":"
    ++ padded 2 (time % 60 + instant.nanos / 1000000000)
    ++ writeFraction (instant.nanos % 1000000000) ++ "Z"

/-! ## Reading -/

/-- A value, and the text behind it. -/
abbrev Read (α : Type) := Option (α × List Char)

/-- The number written by the digits in front, which are at most so many. -/
def readDigits (most : Nat) (cs : List Char) : Read Nat :=
  let digits := (cs.take most).takeWhile Char.isDigit
  if digits.isEmpty then none
  else some (Nat.ofDigitChars 10 digits 0, cs.drop digits.length)

/-- A number of at most two digits, after blanks. -/
def readShort (cs : List Char) : Read Nat :=
  readDigits 2 (trimStart cs)

/-- A year, after blanks: four digits at most, any number of them behind a sign. -/
def readYear (cs : List Char) : Read Int :=
  match trimStart cs with
  | '-' :: cs => (readDigits cs.length cs).map fun (n, rest) => (-(n : Int), rest)
  | '+' :: cs => (readDigits cs.length cs).map fun (n, rest) => ((n : Int), rest)
  | cs => (readDigits 4 cs).map fun (n, rest) => ((n : Int), rest)

/-- Skips a character, after blanks. -/
def skip (c : Char) (cs : List Char) : Option (List Char) :=
  match trimStart cs with
  | d :: rest => if d = c then some rest else none
  | [] => none

/-- The nanoseconds of a fraction, if there is one; digits after the ninth do not count. -/
def readFraction : List Char → Read Nat
  | '.' :: cs =>
    (readDigits 9 cs).map fun (n, rest) =>
      (n * 10 ^ (9 - (cs.length - rest.length)), rest.dropWhile Char.isDigit)
  | cs => some (0, cs)

/-- An offset without its sign, in seconds. -/
def readOffset : List Char → Read Int
  | a :: b :: cs =>
    match cs.dropWhile fun c => c = ':' || isBlank c with
    | c :: d :: rest =>
      if a.isDigit && b.isDigit && c.isDigit && d.isDigit && c.toNat < '6'.toNat then
        let hours := Nat.ofDigitChars 10 [a, b] 0
        let minutes := Nat.ofDigitChars 10 [c, d] 0
        if hours < 24 then some (((hours * 60 + minutes) * 60 : Nat), rest) else none
      else none
    | _ => none
  | _ => none

/-- The zone: UTC by name, or the seconds that local time is ahead. -/
def readZone (cs : List Char) : Read Int :=
  match trimStart cs with
  | 'Z' :: rest | 'z' :: rest => some (0, rest)
  | '+' :: rest => readOffset rest
  | '-' :: rest | '−' :: rest => (readOffset rest).map fun (n, rest) => (-n, rest)
  | u :: t :: c :: rest =>
    if u.toUpper = 'U' && t.toUpper = 'T' && c.toUpper = 'C' then some (0, rest) else none
  | _ => none

/-- A day that the calendar has. -/
def readDay (cs : List Char) : Option (Day × List Char) := do
  let (year, cs) ← readYear cs
  let cs ← skip '-' cs
  let (month, cs) ← readShort cs
  let cs ← skip '-' cs
  let (day, cs) ← readShort cs
  if (Day.mk year month day).isValid then some (⟨year, month, day⟩, cs) else none

/-- A time of day in seconds and nanoseconds; the 60th second of a minute is a leap second. -/
def readTime (cs : List Char) : Option ((Nat × Nat) × List Char) := do
  let (hour, cs) ← readShort cs
  let cs ← skip ':' cs
  let (minute, cs) ← readShort cs
  let cs ← skip ':' cs
  let (second, cs) ← readShort cs
  let (nanos, cs) ← readFraction cs
  if hour < 24 && minute < 60 && second ≤ 60 then
    let whole := (hour * 60 + minute) * 60
    if second = 60 then some ((whole + 59, 1000000000 + nanos), cs)
    else some ((whole + second, nanos), cs)
  else none

/-- Whether a year is one of those that are counted. -/
def inRange (year : Int) : Bool :=
  -262143 ≤ year && year ≤ 262142

/-- Reads an instant from the whole of a text. -/
def read? (text : String) : Option Instant := do
  let (day, cs) ← readDay text.toList
  let cs ←
    match cs with
    | 'T' :: cs | 't' :: cs | ' ' :: cs => some cs
    | _ => none
  let ((time, nanos), cs) ← readTime cs
  let (offset, cs) ← readZone cs
  let seconds := day.toNumber * 86400 + time - offset
  if cs.all isBlank && inRange day.year && inRange (Day.ofNumber (seconds / 86400)).year then
    some ⟨seconds, nanos⟩
  else none

end Instant

end ChatMarkup
