import MotifQuery.Number.Decimal

/-!
# `MotifQuery.Number.Shortest`: the shortest decimal text of a double

A positive finite double is `m · 2 ^ q` and stands for an interval of reals, its ends
included exactly when `m` is even. `shortest` walks the decimal grids of 1, 2, … 17
digits; the first grid with a point in the interval wins, and of two points of that grid
the one nearer to the double, an even one at a tie. All arithmetic is on whole numbers.

Two notations are written from the digits: `plainText`, always positional, and
`jsonText`, positional for magnitudes from `1e-5` up to `1e16` with a fraction always
shown, and with a signed power of ten otherwise.
-/

set_option autoImplicit false

namespace MotifQuery.Number

/-- The number `digits · 10 ^ exponent`. -/
structure Decimal where
  digits : Nat
  exponent : Int
deriving DecidableEq

/-- The reals that round to a positive double, in units of `2 ^ scale`. -/
structure RoundingInterval where
  low : Nat
  value : Nat
  high : Nat
  scale : Int
  /-- The two ends belong to the interval. -/
  closed : Bool

/-- The interval of the positive finite double with these bits. -/
def RoundingInterval.ofBits (bits : Nat) : RoundingInterval :=
  let field : Nat := bits / Nat.pow 2 52 % Nat.pow 2 11
  let fraction : Nat := bits % Nat.pow 2 52
  let m := if field = 0 then fraction else fraction + Nat.pow 2 52
  let q : Int := (if field = 0 then 1 else (field : Int)) - 1075
  { low := if fraction = 0 ∧ 1 < field then 4 * m - 1 else 4 * m - 2
    value := 4 * m
    high := 4 * m + 2
    scale := q - 2
    closed := m % 2 = 0 }

/-- The powers of two and ten that clear all fractions: `a · 2 ^ scale` against
`c · 10 ^ power` is `a * left` against `c * right`. -/
def commonScale (scale power : Int) : Nat × Nat :=
  (Nat.pow 2 scale.toNat * Nat.pow 10 (-power).toNat,
    Nat.pow 2 (-scale).toNat * Nat.pow 10 power.toNat)

/-- The least `k`, counted up from a start, with the value below `10 ^ k`. -/
def decimalPlace (value : Nat) (scale : Int) : Nat → Int → Int
  | 0, k => k
  | fuel + 1, k =>
    let (left, right) := commonScale scale k
    if value * left < right then k else decimalPlace value scale fuel (k + 1)

/-- The point of the grid `10 ^ power` to write the interval with, when it has one. -/
def RoundingInterval.gridPoint? (i : RoundingInterval) (power : Int) : Option Nat :=
  let (left, right) := commonScale i.scale power
  let inside (c : Nat) : Bool :=
    if i.closed then i.low * left ≤ c * right && c * right ≤ i.high * left
    else i.low * left < c * right && c * right < i.high * left
  let below := i.value * left / right
  let rest := i.value * left % right
  match inside below, inside (below + 1) with
  | true, true =>
    if 2 * rest < right then some below
    else if right < 2 * rest then some (below + 1)
    else some (if below % 2 = 0 then below else below + 1)
  | true, false => some below
  | false, true => some (below + 1)
  | false, false => none

/-- Tries the grids from coarse to fine. -/
def RoundingInterval.firstPoint (i : RoundingInterval) : Nat → Int → Decimal
  | 0, power => ⟨(i.gridPoint? power).getD 0, power⟩
  | fuel + 1, power =>
    match i.gridPoint? power with
    | some c => ⟨c, power⟩
    | none => i.firstPoint fuel (power - 1)

/-- Moves trailing zeros of the digits into the exponent. -/
def Decimal.normal : Nat → Decimal → Decimal
  | 0, d => d
  | fuel + 1, d =>
    if d.digits % 10 = 0 ∧ d.digits ≠ 0 then
      Decimal.normal fuel ⟨d.digits / 10, d.exponent + 1⟩
    else d

/-- The shortest decimal that reads back as the positive finite double with these bits. -/
def shortest (bits : Nat) : Decimal :=
  let i := RoundingInterval.ofBits bits
  let start := ((Nat.log2 i.value : Int) + i.scale) * 30103 / 100000 - 1
  let place := decimalPlace i.value i.scale 5 start
  (i.firstPoint 17 (place - 1)).normal 20

/-- The digits in positional notation. A whole number gets `fraction` after it. -/
def positional (d : Decimal) (fraction : List Char) : List Char :=
  let digits := natDigits d.digits
  let place : Int := digits.length + d.exponent
  if 0 ≤ d.exponent then digits ++ List.replicate d.exponent.toNat '0' ++ fraction
  else if 0 < place then digits.take place.toNat ++ '.' :: digits.drop place.toNat
  else '0' :: '.' :: List.replicate (-place).toNat '0' ++ digits

/-- The digits with a power of ten: one digit before the point. -/
def scientific (d : Decimal) : List Char :=
  let digits := natDigits d.digits
  let place : Int := digits.length + d.exponent - 1
  let mantissa := match digits with
    | [] => []
    | [c] => [c]
    | c :: cs => c :: '.' :: cs
  mantissa ++ 'e' :: (if place < 0 then '-' else '+') :: natDigits place.natAbs

/-- The text of a double: a sign where the sign bit is set, and the text of its
magnitude. -/
def signedText (x : Float) (magnitude : Nat → List Char) : List Char :=
  let bits := x.toBits.toNat
  if bits < Nat.pow 2 63 then magnitude bits else '-' :: magnitude (bits - Nat.pow 2 63)

/-- Positional text without a fraction for whole numbers; `inf`, `-inf` and `NaN`. -/
def plainChars (x : Float) : List Char :=
  if x.isNaN then ['N', 'a', 'N']
  else
    signedText x fun bits =>
      if bits = 0 then ['0']
      else if x.isInf then ['i', 'n', 'f']
      else positional (shortest bits) []

/-- The text of a finite double in a JSON document. -/
def jsonChars (x : Float) : List Char :=
  signedText x fun bits =>
    if bits = 0 then ['0', '.', '0']
    else
      let d := shortest bits
      let place : Int := (natDigits d.digits).length + d.exponent
      if -5 < place ∧ place ≤ 16 then positional d ['.', '0'] else scientific d

/-- `plainChars` as a string. -/
def plainText (x : Float) : String :=
  String.ofList (plainChars x)

/-- The value of a nonnegative finite double times ten, rounded to a whole number, half to
even. -/
def tenths (x : Float) : Nat :=
  let bits := x.toBits.toNat
  let i := RoundingInterval.ofBits (bits % Nat.pow 2 63)
  let (left, right) := commonScale i.scale (-1)
  let below := i.value * left / right
  let rest := i.value * left % right
  if right < 2 * rest ∨ (2 * rest = right ∧ below % 2 = 1) then below + 1 else below

/-- A nonnegative finite double with one digit after the point. -/
def oneDecimalText (x : Float) : String :=
  let n := tenths x
  String.ofList (natDigits (n / 10) ++ '.' :: natDigits (n % 10))

end MotifQuery.Number
