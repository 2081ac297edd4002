/-!
# Timestamps

A timestamp text is `YYYY-MM-DDTHH:MM:SS`, an optional fraction of the second and the offset from
UTC, `Z` or a sign with hours and minutes, as in RFC 3339.  A small `t`, a small `z`, a blank in
the place of `T` and the minus sign U+2212 are taken too.  The date has to exist in the Gregorian
calendar, continued backwards to the year 0.

Second 60 is a leap second in any minute: it is kept as second 59 with a thousand million more
nanoseconds.
-/

namespace TypedJson

/-- An instant, with the offset of the clock it was read from. -/
structure Timestamp where
  /-- Seconds since the start of 1970 in UTC. -/
  unixSeconds : Int
  /-- Nanoseconds of that second; a thousand million or more in a leap second. -/
  nanoseconds : Nat
  /-- Seconds that the clock is ahead of UTC. -/
  offset : Int
  deriving DecidableEq, Repr

namespace Timestamp

/-! ## Calendar -/

def isLeapYear (year : Nat) : Bool := year % 4 == 0 && (year % 100 != 0 || year % 400 == 0)

/-- The number of days of a month, counted from 1. -/
def daysInMonth (year month : Nat) : Nat :=
  if month = 2 then (if isLeapYear year then 29 else 28)
  else if month = 4 ∨ month = 6 ∨ month = 9 ∨ month = 11 then 30
  else 31

/-- The days from the start of the year 0 to the start of a year. -/
def daysBeforeYear (year : Nat) : Nat :=
  365 * year + (year + 3) / 4 - (year + 99) / 100 + (year + 399) / 400

/-- The days from the start of a year to the start of its month `month + 1`. -/
def daysBeforeMonth (year : Nat) : Nat → Nat
  | 0 => 0
  | month + 1 => daysBeforeMonth year month + daysInMonth year (month + 1)

/-- The days from the start of 1970 to a date. -/
def daysSinceEpoch (year month day : Nat) : Int :=
  ((daysBeforeYear year + daysBeforeMonth year (month - 1) + (day - 1) : Nat) : Int) -
    daysBeforeYear 1970

/-! ## Reading -/

/-- The number that ASCII digits spell. -/
def digits? (cs : List Char) : Option Nat :=
  if cs.all Char.isDigit then
    some (cs.foldl (fun n c => n * 10 + (c.toNat - '0'.toNat)) 0)
  else none

/-- The fraction of a second in nanoseconds, if there is one, and the text after it.  Digits past
the ninth do not count. -/
def fraction? : List Char → Option (Nat × List Char)
  | '.' :: s => do
    let digits := s.takeWhile Char.isDigit
    guard (digits ≠ [])
    let nanoseconds ← digits? ((digits ++ List.replicate 9 '0').take 9)
    return (nanoseconds, s.dropWhile Char.isDigit)
  | s => some (0, s)

/-- The offset in seconds; less than a day either way. -/
def offset? : List Char → Option Int
  | ['Z'] | ['z'] => some 0
  | [sign, h, h', ':', m, m'] => do
    let hours ← digits? [h, h']
    let minutes ← digits? [m, m']
    guard (hours < 24 ∧ minutes < 60)
    let seconds : Int := (hours * 60 + minutes) * 60
    if sign = '+' then some seconds
    else if sign = '-' ∨ sign = '\u2212' then some (-seconds)
    else none
  | _ => none

/-- The days from the start of 1970 to a date given by its digits. -/
def date? (year month day : List Char) : Option Int := do
  let year ← digits? year
  let month ← digits? month
  let day ← digits? day
  guard (1 ≤ month ∧ month ≤ 12 ∧ 1 ≤ day ∧ day ≤ daysInMonth year month)
  return daysSinceEpoch year month day

/-- The seconds since midnight, and whether the second is a leap second. -/
def time? (hour minute second : List Char) : Option (Nat × Bool) := do
  let hour ← digits? hour
  let minute ← digits? minute
  let second ← digits? second
  guard (hour < 24 ∧ minute < 60 ∧ second ≤ 60)
  return ((hour * 60 + minute) * 60 + min second 59, second == 60)

/-- The timestamp that a text spells. -/
def read? (text : String) : Option Timestamp :=
  match text.toList with
  | y :: y' :: y'' :: y''' :: '-' :: m :: m' :: '-' :: d :: d' :: separator ::
      h :: h' :: ':' :: i :: i' :: ':' :: s :: s' :: rest => do
    guard (separator = 'T' ∨ separator = 't' ∨ separator = ' ')
    let days ← date? [y, y', y'', y'''] [m, m'] [d, d']
    let (seconds, isLeap) ← time? [h, h'] [i, i'] [s, s']
    let (nanoseconds, rest) ← fraction? rest
    let offset ← offset? rest
    return {
      unixSeconds := days * 86400 + seconds - offset
      nanoseconds := if isLeap then nanoseconds + 1000000000 else nanoseconds
      offset }
  | _ => none

end Timestamp

end TypedJson
