import MotifQuery.Text.Blank

/-!
# `MotifQuery.Number.Integer`: whole numbers in decimal

A whole number is written with at least one ASCII digit and at most one sign before the
first digit; leading zeros carry no value. Readers with a bound refuse a number outside
it. Writing uses no sign for zero and no leading zero.
-/

set_option autoImplicit false

namespace MotifQuery.Number

open Text

/-- The value of an ASCII digit. -/
def digitValue (c : Char) : Nat :=
  c.toNat - 48

/-- The value of a run of digits, most significant first. -/
def digitsValue (cs : List Char) : Nat :=
  cs.foldl (fun n c => 10 * n + digitValue c) 0

/-- Reads a nonempty run of digits. -/
def readNat? (cs : List Char) : Option Nat :=
  if !cs.isEmpty && cs.all isAsciiDigit then some (digitsValue cs) else none

/-- Cuts off one sign; the flag is set for a minus. -/
def splitSign : List Char → Bool × List Char
  | [] => (false, [])
  | c :: cs => if c = '-' then (true, cs) else if c = '+' then (false, cs) else (false, c :: cs)

/-- Reads digits after at most one sign. -/
def readInt? (cs : List Char) : Option Int :=
  let (negative, digits) := splitSign cs
  (readNat? digits).map fun n => if negative then -(n : Int) else n

/-- Does the number fit in 64 bits with sign? -/
def fitsInt64 (n : Int) : Bool :=
  -(Nat.pow 2 63 : Nat) ≤ n && n < (Nat.pow 2 63 : Nat)

/-- Does the number fit in 64 bits without sign? -/
def fitsUInt64 (n : Int) : Bool :=
  0 ≤ n && n < (Nat.pow 2 64 : Nat)

/-- Reads a number that fits in 64 bits with sign. -/
def readInt64? (cs : List Char) : Option Int :=
  (readInt? cs).filter fitsInt64

/-- Reads a number that fits in 64 bits without sign; a plus may stand before it. -/
def readUInt64? (cs : List Char) : Option Nat :=
  let digits := match cs with
    | '+' :: rest => rest
    | _ => cs
  (readNat? digits).filter fun n => n < Nat.pow 2 64

/-- The decimal digits of a number, most significant first. -/
def natDigits (n : Nat) : List Char :=
  Nat.toDigits 10 n

/-- The decimal text of a whole number. -/
def intChars (n : Int) : List Char :=
  if n < 0 then '-' :: natDigits n.natAbs else natDigits n.natAbs

/-- The decimal text of a whole number. -/
def intText (n : Int) : String :=
  String.ofList (intChars n)

/-- The decimal text of a natural number. -/
def natText (n : Nat) : String :=
  String.ofList (natDigits n)

/-- The number in hexadecimal, lower case, padded with zeros to `width` digits. -/
def hexDigits (width n : Nat) : List Char :=
  let digits := Nat.toDigits 16 n
  List.replicate (width - digits.length) '0' ++ digits

/-- The value of a hexadecimal digit of either case. -/
def hexValue? (c : Char) : Option Nat :=
  if '0' ≤ c ∧ c ≤ '9' then some (c.toNat - 48)
  else if 'a' ≤ c ∧ c ≤ 'f' then some (c.toNat - 87)
  else if 'A' ≤ c ∧ c ≤ 'F' then some (c.toNat - 55)
  else none

/-- The value of a run of hexadecimal digits, `none` at any other character. -/
def readHex? (cs : List Char) : Option Nat :=
  cs.foldlM (fun n c => (hexValue? c).map fun d => 16 * n + d) 0

end MotifQuery.Number
