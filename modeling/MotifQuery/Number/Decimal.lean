import MotifQuery.Number.Integer

/-!
# `MotifQuery.Number.Decimal`: reading decimal fractions

A decimal number is a run of digits with at most one point, at least one digit, and an
optional power of ten; the words `inf`, `infinity` and `nan` in any case are read too.
The double read is the one nearest to the number written.
-/

set_option autoImplicit false

namespace MotifQuery.Number

open Text

/-- The double nearest to the digits, read as a whole number, times a power of ten.
Beyond the range of doubles no power of ten is formed. -/
def nearestDouble (digits : List Char) (exponent : Int) : Float :=
  let digits := digits.dropWhile (· == '0')
  let magnitude := (digits.length : Int) + exponent
  if digits.isEmpty || magnitude < -400 then 0.0
  else if magnitude > 400 then 1.0 / 0.0
  else if exponent < 0 then Float.ofScientific (digitsValue digits) true exponent.natAbs
  else Float.ofScientific (digitsValue digits * Nat.pow 10 exponent.natAbs) false 0

/-- Reads the power of ten after the digits: nothing, or `e` and a whole number. -/
def readExponent? : List Char → Option Int
  | [] => some 0
  | c :: cs => if c = 'e' ∨ c = 'E' then readInt? cs else none

/-- A number without sign. -/
def readMagnitude? (cs : List Char) : Option Float :=
  let word := cs.map lowerAscii
  if word = ['i', 'n', 'f'] ∨ word = ['i', 'n', 'f', 'i', 'n', 'i', 't', 'y'] then
    some (1.0 / 0.0)
  else if word = ['n', 'a', 'n'] then some (0.0 / 0.0)
  else
    let whole := cs.takeWhile isAsciiDigit
    let rest := cs.dropWhile isAsciiDigit
    let (fraction, rest) := match rest with
      | '.' :: rest => (rest.takeWhile isAsciiDigit, rest.dropWhile isAsciiDigit)
      | _ => ([], rest)
    if whole.isEmpty && fraction.isEmpty then none
    else
      (readExponent? rest).map fun exponent =>
        nearestDouble (whole ++ fraction) (exponent - fraction.length)

/-- Reads a decimal number after at most one sign. -/
def readDouble? (cs : List Char) : Option Float :=
  let (negative, rest) := splitSign cs
  (readMagnitude? rest).map fun x => if negative then -x else x

/-- Neither infinite nor undefined. -/
def isFinite (x : Float) : Bool :=
  !x.isNaN && !x.isInf

end MotifQuery.Number
