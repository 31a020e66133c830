import MotifQuery.Json.Basic

/-!
# `MotifQuery.Json.Document`: JSON syntax trees

A `Document` is what a JSON text says before it is given a meaning: numbers as written,
every member of an object in order, repeated keys included. `Document.parse?` reads a
whole text. `Document.value?` gives the value: the last of the members with one key stays,
a number out of the range of doubles or a string that is no Unicode text has no value, and
containers nest at most 127 deep.

A number without fraction and exponent is exact within 64 bits. Every other number is a
significand of at most 64 bits times a power of ten, computed in doubles.
-/

set_option autoImplicit false

namespace MotifQuery.Json

open Text Number

/-- A number as written. -/
structure NumberText where
  negative : Bool
  whole : List Char
  fraction : List Char
  /-- The sign, set for a minus, and the digits of the power of ten. -/
  exponent : Option (Bool × List Char)
deriving DecidableEq

/-- A JSON syntax tree. -/
inductive Document where
  | null
  | bool (b : Bool)
  | number (text : NumberText)
  /-- `none` stands for a string that is no Unicode text. -/
  | string (text : Option String)
  | array (items : List Document)
  | object (members : List (String × Document))

/-- A character of a string, or a code unit given by number. -/
inductive StringPart where
  | char (c : Char)
  | unit (n : Nat)
deriving DecidableEq

/-- Puts the parts of a string together; a high surrogate pairs with the low one directly
after it, and no other surrogate is text. -/
def joinParts : List StringPart → Option (List Char)
  | [] => some []
  | .char c :: rest => (joinParts rest).map (c :: ·)
  | .unit high :: .unit low :: rest =>
    if 0xD800 ≤ high ∧ high ≤ 0xDBFF then
      if 0xDC00 ≤ low ∧ low ≤ 0xDFFF then
        (joinParts rest).map
          (Char.ofNat (0x10000 + (high - 0xD800) * 0x400 + (low - 0xDC00)) :: ·)
      else none
    else if 0xDC00 ≤ high ∧ high ≤ 0xDFFF then none
    else (joinParts (.unit low :: rest)).map (Char.ofNat high :: ·)
  | .unit n :: rest =>
    if 0xD800 ≤ n ∧ n ≤ 0xDFFF then none else (joinParts rest).map (Char.ofNat n :: ·)

/-- The character that an escape letter stands for. -/
def escapedChar? (c : Char) : Option Char :=
  if c = '"' ∨ c = '\\' ∨ c = '/' then some c
  else if c = 'n' then some '\n'
  else if c = 'r' then some '\r'
  else if c = 't' then some '\t'
  else if c = 'b' then some (Char.ofNat 8)
  else if c = 'f' then some (Char.ofNat 12)
  else none

/-- Reads the parts of a string up to its closing quote. -/
def readParts? : List Char → Option (List StringPart × List Char)
  | [] => none
  | '"' :: rest => some ([], rest)
  | '\\' :: 'u' :: a :: b :: c :: d :: rest =>
    match readHex? [a, b, c, d] with
    | some n => (readParts? rest).map fun out => (.unit n :: out.1, out.2)
    | none => none
  | '\\' :: c :: rest =>
    match escapedChar? c with
    | some c => (readParts? rest).map fun out => (.char c :: out.1, out.2)
    | none => none
  | c :: rest =>
    if c.toNat < 32 ∨ c = '\\' then none
    else (readParts? rest).map fun out => (.char c :: out.1, out.2)

/-- Reads a string after its opening quote. -/
def readString? (cs : List Char) : Option (Option String × List Char) :=
  (readParts? cs).map fun out => ((joinParts out.1).map String.ofList, out.2)

/-- The blank characters between tokens. -/
def isSpace (c : Char) : Bool :=
  c = ' ' || c = '\n' || c = '\t' || c = '\r'

/-- Drops blank characters. -/
def skipSpace (cs : List Char) : List Char :=
  cs.dropWhile isSpace

/-- Reads the power of ten after the letter. -/
def readPower? (cs : List Char) : Option ((Bool × List Char) × List Char) :=
  let (negative, rest) := match cs with
    | '-' :: rest => (true, rest)
    | '+' :: rest => (false, rest)
    | _ => (false, cs)
  let digits := rest.takeWhile isAsciiDigit
  if digits.isEmpty then none else some ((negative, digits), rest.dropWhile isAsciiDigit)

/-- Reads what may follow the fraction of a number. -/
def readNumberEnd? (negative : Bool) (whole fraction : List Char) (cs : List Char) :
    Option (NumberText × List Char) :=
  match cs with
  | c :: rest =>
    if c = 'e' ∨ c = 'E' then
      (readPower? rest).map fun out => (⟨negative, whole, fraction, some out.1⟩, out.2)
    else some (⟨negative, whole, fraction, none⟩, cs)
  | [] => some (⟨negative, whole, fraction, none⟩, [])

/-- Reads a number after its sign. No zero stands before other digits, and a point has
digits on both sides. -/
def readNumber? (negative : Bool) (cs : List Char) : Option (NumberText × List Char) :=
  let whole := cs.takeWhile isAsciiDigit
  let rest := cs.dropWhile isAsciiDigit
  if whole.isEmpty || (whole.head? == some '0' && whole.length != 1) then none
  else
    match rest with
    | '.' :: after =>
      let fraction := after.takeWhile isAsciiDigit
      if fraction.isEmpty then none
      else readNumberEnd? negative whole fraction (after.dropWhile isAsciiDigit)
    | _ => readNumberEnd? negative whole [] rest

mutual

/-- Reads a value; `fuel` bounds the number of tokens. -/
def readValue? : Nat → List Char → Option (Document × List Char)
  | 0, _ => none
  | fuel + 1, cs =>
    match skipSpace cs with
    | [] => none
    | '"' :: rest => (readString? rest).map fun out => (.string out.1, out.2)
    | '[' :: rest =>
      match skipSpace rest with
      | ']' :: rest => some (.array [], rest)
      | rest => (readItems? fuel rest).map fun out => (.array out.1, out.2)
    | '{' :: rest =>
      match skipSpace rest with
      | '}' :: rest => some (.object [], rest)
      | rest => (readMembers? fuel rest).map fun out => (.object out.1, out.2)
    | 'n' :: 'u' :: 'l' :: 'l' :: rest => some (.null, rest)
    | 't' :: 'r' :: 'u' :: 'e' :: rest => some (.bool true, rest)
    | 'f' :: 'a' :: 'l' :: 's' :: 'e' :: rest => some (.bool false, rest)
    | '-' :: rest => (readNumber? true rest).map fun out => (.number out.1, out.2)
    | rest => (readNumber? false rest).map fun out => (.number out.1, out.2)

/-- Reads the items of an array and its closing bracket. -/
def readItems? : Nat → List Char → Option (List Document × List Char)
  | 0, _ => none
  | fuel + 1, cs =>
    match readValue? fuel cs with
    | none => none
    | some (item, rest) =>
      match skipSpace rest with
      | ',' :: rest => (readItems? fuel rest).map fun out => (item :: out.1, out.2)
      | ']' :: rest => some ([item], rest)
      | _ => none

/-- Reads the members of an object and its closing brace. -/
def readMembers? : Nat → List Char → Option (List (String × Document) × List Char)
  | 0, _ => none
  | fuel + 1, cs =>
    match skipSpace cs with
    | '"' :: rest =>
      match readString? rest with
      | some (some key, rest) =>
        match skipSpace rest with
        | ':' :: rest =>
          match readValue? fuel rest with
          | none => none
          | some (value, rest) =>
            match skipSpace rest with
            | ',' :: rest =>
              (readMembers? fuel rest).map fun out => ((key, value) :: out.1, out.2)
            | '}' :: rest => some ([(key, value)], rest)
            | _ => none
        | _ => none
      | _ => none
    | _ => none

end

/-- Reads a whole text as one document. -/
def Document.parse? (cs : List Char) : Option Document :=
  match readValue? (cs.length + 1) cs with
  | some (document, rest) => if (skipSpace rest).isEmpty then some document else none
  | none => none

/-- Takes digits into a significand as long as it stays within 64 bits; also the digits
left over. -/
def growSignificand : Nat → List Char → Nat × List Char
  | n, [] => (n, [])
  | n, c :: cs =>
    let next := 10 * n + digitValue c
    if next < Nat.pow 2 64 then growSignificand next cs else (n, c :: cs)

/-- A power of ten as a double. -/
def powerOfTen (n : Nat) : Float :=
  nearestDouble ['1'] n

/-- A double times a power of ten, step by step where the power is no double. -/
def scaleByTen : Nat → Float → Int → Option Float
  | 0, x, _ => some x
  | fuel + 1, x, exponent =>
    if exponent.natAbs ≤ 308 then
      if 0 ≤ exponent then
        let y := x * powerOfTen exponent.natAbs
        if y.isInf then none else some y
      else some (x / powerOfTen exponent.natAbs)
    else if x == 0.0 then some x
    else if 0 ≤ exponent then none
    else scaleByTen fuel (x / powerOfTen 308) (exponent + 308)

/-- The double of a number with a fraction, a power of ten or too many digits. -/
def NumberText.double? (t : NumberText) : Option Float :=
  let (whole, dropped) := growSignificand 0 t.whole
  let (significand, unused) := growSignificand whole t.fraction
  let places : Int := dropped.length - (t.fraction.length - unused.length : Nat)
  let x := Float.ofNat significand
  let magnitude := match t.exponent with
    | none => scaleByTen 8 x places
    | some (negative, digits) =>
      let power := digitsValue digits
      if Nat.pow 2 31 ≤ power then
        -- such a power is out of range whatever the digits
        if significand = 0 ∨ negative then some 0.0 else none
      else scaleByTen 8 x (if negative then places - power else places + power)
  magnitude.map fun y => if t.negative then -y else y

/-- The value of a number. -/
def NumberText.value? (t : NumberText) : Option Json :=
  if t.fraction.isEmpty && t.exponent.isNone then
    let n := digitsValue t.whole
    if t.negative then
      -- no whole number is a zero below zero, so `-0` is a double
      if n ≠ 0 ∧ n ≤ Nat.pow 2 63 then some (.int (-(n : Int))) else t.double?.map .float
    else if n < Nat.pow 2 64 then some (.int n)
    else t.double?.map .float
  else t.double?.map .float

mutual

/-- The value of a document whose containers nest less than `depth` deep. -/
def Document.value? : Nat → Document → Option Json
  | _, .null => some .null
  | _, .bool b => some (.bool b)
  | _, .number text => text.value?
  | _, .string text => text.map .str
  | depth, .array items =>
    if depth ≤ 1 then none else (Document.values? (depth - 1) items).map .arr
  | depth, .object members =>
    if depth ≤ 1 then none
    else (Document.fields? (depth - 1) members).map Json.ofFields

/-- The values of items. -/
def Document.values? : Nat → List Document → Option (List Json)
  | _, [] => some []
  | depth, item :: rest =>
    match Document.value? depth item, Document.values? depth rest with
    | some value, some values => some (value :: values)
    | _, _ => none

/-- The fields of members. -/
def Document.fields? : Nat → List (String × Document) → Option (List (String × Json))
  | _, [] => some []
  | depth, (key, item) :: rest =>
    match Document.value? depth item, Document.fields? depth rest with
    | some value, some fields => some ((key, value) :: fields)
    | _, _ => none

end

/-- Containers nest less than this deep. -/
def depthLimit : Nat := 128

/-- Reads a whole text as one value. -/
def parse? (cs : List Char) : Option Json :=
  (Document.parse? cs).bind (Document.value? depthLimit)

end MotifQuery.Json
