import MotifQuery.Number.Integer

/-!
# `MotifQuery.Time.Calendar`: instants and their texts

An instant is a number of nanoseconds from the start of 1970 in universal time. Its text
gives the date of the Gregorian calendar, carried on in both directions, and the time of
day. The reader takes one digit or two for each part, blanks between parts, and any offset
from universal time; the writer always uses universal time and as many digits of the
second as are needed, in groups of three.
-/

set_option autoImplicit false

namespace MotifQuery

open Text Number

/-- Nanoseconds from the start of 1970. -/
abbrev Instant := Int

namespace Instant

/-- The nanoseconds of a second. -/
def perSecond : Int := 1000000000

/-- The seconds of a day. -/
def perDay : Int := 86400

/-- Is it a leap year? -/
def isLeap (year : Int) : Bool :=
  year % 4 == 0 && (year % 100 != 0 || year % 400 == 0)

/-- The number of days in a month. -/
def daysInMonth (year : Int) (month : Nat) : Nat :=
  match month with
  | 2 => if isLeap year then 29 else 28
  | 4 | 6 | 9 | 11 => 30
  | _ => 31

/-- A year that starts in March, so that a leap day ends it. -/
def marchYear (year : Int) (month : Nat) : Int :=
  if month ≤ 2 then year - 1 else year

/-- The days from the start of 1970 to a date. -/
def dayNumber (year : Int) (month day : Nat) : Int :=
  let y := marchYear year month
  let monthFromMarch : Int := (month + 9) % 12
  -- five months from March on have 153 days
  let inYear := (153 * monthFromMarch + 2) / 5 + day - 1
  365 * y + y / 4 - y / 100 + y / 400 + inYear - 719468

/-- The year, month and day of a number of days from the start of 1970. -/
def dateOfDay (n : Int) : Int × Nat × Nat :=
  let z := n + 719468
  -- 400 years have 146097 days
  let era := z / 146097
  let inEra := z % 146097
  let y := (inEra - inEra / 1460 + inEra / 36524 - inEra / 146096) / 365
  let inYear := inEra - (365 * y + y / 4 - y / 100)
  let m := (5 * inYear + 2) / 153
  let day := inYear - (153 * m + 2) / 5 + 1
  let month := if m < 10 then m + 3 else m - 9
  let year := y + 400 * era + (if month ≤ 2 then 1 else 0)
  (year, month.toNat, day.toNat)

/-- The instant of a date and a time of day in seconds and nanoseconds. -/
def ofDate (year : Int) (month day : Nat) (seconds nanoseconds : Int) : Instant :=
  (dayNumber year month day * perDay + seconds) * perSecond + nanoseconds

/-- The years that the calendar reaches. -/
def maxYear : Int := 262142

/-- The first instant after the last year. -/
def limit : Instant :=
  ofDate (maxYear + 1) 1 1 0 0

/-- The instant some days later, when the calendar reaches it. -/
def addDays? (t : Instant) (days : Nat) : Option Instant :=
  let later := t + days * perDay * perSecond
  if later < limit then some later else none

/-! ### Reading -/

/-- Reads a number of one digit up to `width`, after blanks. -/
def readNumber? (width : Nat) (cs : List Char) : Option (Nat × List Char) :=
  let cs := trimStart cs
  let digits := (cs.take width).takeWhile isAsciiDigit
  (readNat? digits).map fun n => (n, cs.drop digits.length)

/-- Reads a year: four digits at most, or any number after a sign. -/
def readYear? (cs : List Char) : Option (Int × List Char) :=
  match trimStart cs with
  | '-' :: rest => (readNumber? rest.length rest).map fun (n, rest) => (-(n : Int), rest)
  | '+' :: rest => (readNumber? rest.length rest).map fun (n, rest) => ((n : Int), rest)
  | cs => (readNumber? 4 cs).map fun (n, rest) => ((n : Int), rest)

/-- Reads a separator after blanks. -/
def readMark? (mark : Char) (cs : List Char) : Option (List Char) :=
  match trimStart cs with
  | c :: rest => if c = mark then some rest else none
  | [] => none

/-- Reads the fraction of a second in nanoseconds; digits after the ninth do not count. -/
def readFraction? (cs : List Char) : Option (Nat × List Char) :=
  match cs with
  | '.' :: rest =>
    let digits := rest.takeWhile isAsciiDigit
    let counted := digits.take 9
    (readNat? counted).map fun n => (n * Nat.pow 10 (9 - counted.length), rest.drop digits.length)
  | _ => some (0, cs)

/-- Reads two digits. -/
def readTwo? : List Char → Option (Nat × List Char)
  | a :: b :: rest => (readNat? [a, b]).map fun n => (n, rest)
  | _ => none

/-- Reads hours and minutes of an offset, in seconds. -/
def readHoursMinutes? (cs : List Char) : Option (Nat × List Char) := do
  let (hours, rest) ← readTwo? cs
  let (minutes, rest) ← readTwo? (rest.dropWhile fun c => c == ':' || isBlank c)
  if minutes < 60 ∧ hours < 24 then some (hours * 3600 + minutes * 60, rest) else none

/-- Reads an offset from universal time, in seconds. -/
def readOffset? (cs : List Char) : Option (Int × List Char) :=
  match cs with
  | 'Z' :: rest | 'z' :: rest => some (0, rest)
  | '+' :: rest => (readHoursMinutes? rest).map fun (n, rest) => ((n : Int), rest)
  | '-' :: rest | '−' :: rest =>
    (readHoursMinutes? rest).map fun (n, rest) => (-(n : Int), rest)
  | a :: b :: c :: rest =>
    if sameLetters [a, b, c] ['U', 'T', 'C'] then some (0, rest) else none
  | _ => none

/-- Reads the mark between date and time of day. -/
def readTimeMark? : List Char → Option (List Char)
  | c :: rest => if c = 'T' ∨ c = 't' ∨ c = ' ' then some rest else none
  | [] => none

/-- Reads an instant. -/
def read? (cs : List Char) : Option Instant := do
  let (year, rest) ← readYear? cs
  let rest ← readMark? '-' rest
  let (month, rest) ← readNumber? 2 (trimStart rest)
  let rest ← readMark? '-' rest
  let (day, rest) ← readNumber? 2 rest
  let rest ← readTimeMark? rest
  let (hour, rest) ← readNumber? 2 rest
  let rest ← readMark? ':' rest
  let (minute, rest) ← readNumber? 2 rest
  let rest ← readMark? ':' rest
  let (second, rest) ← readNumber? 2 rest
  let (fraction, rest) ← readFraction? rest
  let (offset, rest) ← readOffset? (trimStart rest)
  if !(trimStart rest).isEmpty then none
  else if month < 1 ∨ 12 < month ∨ day < 1 ∨ daysInMonth year month < day then none
  -- a minute may end with a leap second
  else if 23 < hour ∨ 59 < minute ∨ 60 < second ∨ maxYear < year.natAbs then none
  else
    let seconds : Int := hour * 3600 + minute * 60 + second - offset
    some (ofDate year month day seconds fraction)

/-! ### Writing -/

/-- A number with zeros before it. -/
def padded (width n : Nat) : List Char :=
  let digits := natDigits n
  List.replicate (width - digits.length) '0' ++ digits

/-- A year; one that is not of four digits has a sign. -/
def yearChars (year : Int) : List Char :=
  if 0 ≤ year ∧ year ≤ 9999 then padded 4 year.toNat
  else (if year < 0 then '-' else '+') :: padded 4 year.natAbs

/-- The fraction of a second. -/
def fractionChars (n : Nat) : List Char :=
  if n = 0 then []
  else if n % 1000000 = 0 then '.' :: padded 3 (n / 1000000)
  else if n % 1000 = 0 then '.' :: padded 6 (n / 1000)
  else '.' :: padded 9 n

/-- Date, hours and minutes, with the mark between date and time. -/
def minuteChars (mark : Char) (t : Instant) : List Char :=
  let seconds := t / perSecond
  let (year, month, day) := dateOfDay (seconds / perDay)
  let ofDay := (seconds % perDay).toNat
  yearChars year ++ '-' :: padded 2 month ++ '-' :: padded 2 day
    ++ mark :: padded 2 (ofDay / 3600) ++ ':' :: padded 2 (ofDay / 60 % 60)

/-- The text of an instant. -/
def text (t : Instant) : String :=
  String.ofList (minuteChars 'T' t ++ ':' :: padded 2 (t / perSecond % 60).toNat
    ++ fractionChars (t % perSecond).toNat ++ ['Z'])

/-- The text of an instant to the minute. -/
def minuteText (t : Instant) : String :=
  String.ofList (minuteChars ' ' t)

end Instant

end MotifQuery
