import MotifQuery.Config.Source
import MotifQuery.Yaml.Node

/-!
# `MotifQuery.Yaml.Value`: what YAML nodes stand for

A plain scalar stands for nothing, a truth value, a whole number, another number, or else
for its text; a tag of the core kinds decides which. All other scalars are texts. Whole
numbers may be written in base ten, sixteen, eight and two; digits with a zero before
them are a text. `source` makes nodes a format for records: where a text is wanted, every
scalar is one.
-/

set_option autoImplicit false

namespace MotifQuery.Yaml

open Number Text

/-- The words for nothing. -/
def isNullWord (s : String) : Bool :=
  s == "null" || s == "Null" || s == "NULL" || s == "~"

/-- The truth value of a word. -/
def readBool? (s : String) : Option Bool :=
  if s = "true" ∨ s = "True" ∨ s = "TRUE" then some true
  else if s = "false" ∨ s = "False" ∨ s = "FALSE" then some false
  else none

/-- Digits with a zero before them. -/
def isPaddedNumber (cs : List Char) : Bool :=
  let digits := match cs with
    | '-' :: rest | '+' :: rest => rest
    | _ => cs
  1 < digits.length && digits.head? == some '0' && digits.all isAsciiDigit

/-- Reads digits of a base up to sixteen. -/
def readDigits? (base : Nat) (cs : List Char) : Option Nat :=
  if cs.isEmpty then none
  else
    cs.foldlM
      (fun n c => (hexValue? c).bind fun d => if d < base then some (base * n + d) else none) 0

/-- Reads digits after the mark of their base. -/
def readMarked? (cs : List Char) : Option Nat :=
  match cs with
  | '0' :: 'x' :: rest => readDigits? 16 rest
  | '0' :: 'o' :: rest => readDigits? 8 rest
  | '0' :: 'b' :: rest => readDigits? 2 rest
  | _ => none

/-- Reads a whole number without sign below a bound. -/
def readNatural? (bound : Nat) (cs : List Char) : Option Nat :=
  let unsigned := match cs with
    | '+' :: rest => rest
    | _ => cs
  match (readMarked? unsigned).filter (· < bound) with
  | some n => some n
  | none =>
    -- padded digits are a text, as in `007`
    if isPaddedNumber cs then none else (readDigits? 10 unsigned).filter (· < bound)

/-- Reads a whole number below zero, or zero with a sign, down to a bound. -/
def readNegative? (bound : Nat) (cs : List Char) : Option Int :=
  match cs with
  | '-' :: rest =>
    let n := match (readMarked? rest).filter (· ≤ bound) with
      | some n => some n
      | none => if isPaddedNumber cs then none else (readDigits? 10 rest).filter (· ≤ bound)
    n.map fun n => -(n : Int)
  | _ => none

/-- Reads a number. -/
def readDouble? (s : String) : Option Float :=
  if s = ".inf" ∨ s = ".Inf" ∨ s = ".INF" ∨ s = "+.inf" ∨ s = "+.Inf" ∨ s = "+.INF" then
    some (1.0 / 0.0)
  else if s = "-.inf" ∨ s = "-.Inf" ∨ s = "-.INF" then some (-1.0 / 0.0)
  else if s = ".nan" ∨ s = ".NaN" ∨ s = ".NAN" then some (0.0 / 0.0)
  else (Number.readDouble? s.toList).filter isFinite

/-- The value of a whole number; one that does not fit in 64 bits but in 128 has none. The
outer `none` says that the text is no whole number. -/
def readWhole? (cs : List Char) : Option (Option Json) :=
  match readNatural? (Nat.pow 2 64) cs with
  | some n => some (some (.nat n))
  | none =>
    match readNegative? (Nat.pow 2 63) cs with
    | some n => some (some (.int n))
    | none =>
      if (readNatural? (Nat.pow 2 128) cs).isSome || (readNegative? (Nat.pow 2 127) cs).isSome
      then some none
      else none

/-- The value of a plain scalar. -/
def plainValue? (s : String) : Option Json :=
  if s = "" ∨ isNullWord s then some .null
  else
    match readBool? s with
    | some b => some (.bool b)
    | none =>
      match readWhole? s.toList with
      | some value => value
      | none =>
        match if isPaddedNumber s.toList then none else readDouble? s with
        | some x => some (.ofDouble x)
        | none => some (.str s)

/-- The value of a scalar with a tag. -/
def taggedValue? (tag s : String) : Option Json :=
  if tag = "tag:yaml.org,2002:bool" then (readBool? s).map .bool
  else if tag = "tag:yaml.org,2002:int" then (readWhole? s.toList).bind id
  else if tag = "tag:yaml.org,2002:float" then (readDouble? s).map .ofDouble
  else if tag = "tag:yaml.org,2002:null" then if isNullWord s then some .null else none
  else some (.str s)

/-- Is the tag one that a document makes up? -/
def isLocalTag (tag : Option String) : Bool :=
  tag.any fun t => startsWith t "!"

/-- The value of a scalar. -/
def scalarValue? (tag : Option String) (s : String) (plain : Bool) : Option Json :=
  match tag with
  | some tag => taggedValue? tag s
  | none => if plain then plainValue? s else some (.str s)

namespace Node

/-- The text of a scalar. -/
def text? : Node → Option String
  | scalar _ text _ => some text
  | _ => none

/-- Is it a plain scalar without a text? -/
def isEmpty : Node → Bool
  | scalar _ text plain => plain && text == ""
  | _ => false

mutual

/-- The value of a node whose collections nest at most `depth` deep. -/
def value? (depth : Nat) : Node → Option Json
  | scalar tag text plain => if isLocalTag tag then none else scalarValue? tag text plain
  | sequence tag items =>
    match depth with
    | 0 => none
    | depth + 1 =>
      if isLocalTag tag then none else (itemValues? depth items).map .arr
  | mapping tag members =>
    match depth with
    | 0 => none
    | depth + 1 =>
      if isLocalTag tag then none else (memberValues? depth members).map .ofFields

/-- The values of items. -/
def itemValues? (depth : Nat) : List Node → Option (List Json)
  | [] => some []
  | n :: rest => do
    let v ← value? depth n
    let vs ← itemValues? depth rest
    pure (v :: vs)

/-- The values of members. -/
def memberValues? (depth : Nat) : List (Node × Node) → Option (List (String × Json))
  | [] => some []
  | (k, n) :: rest => do
    let key ← k.text?
    let v ← value? depth n
    let vs ← memberValues? depth rest
    pure ((key, v) :: vs)

end

/-- The members of a mapping by their keys. -/
def members? (n : Node) : Option (List (String × Node)) :=
  match n with
  | mapping _ members => members.mapM fun (m : Node × Node) => m.1.text?.map fun k => (k, m.2)
  | n => if n.isEmpty then some [] else none

/-- The items of a sequence. -/
def items? : Node → Option (List Node)
  | sequence _ items => some items
  | n => if n.isEmpty then some [] else none

/-- The text of a plain scalar. -/
def plainText? : Node → Option String
  | scalar _ text true => some text
  | _ => none

/-- Does the node stand for nothing? -/
def isNull : Node → Bool
  | scalar none text true => text == "" || isNullWord text
  | scalar (some tag) text _ => tag == "tag:yaml.org,2002:null" && isNullWord text
  | _ => false

end Node

/-- Records in YAML nodes. -/
def source : Source Node where
  positional := false
  members? := Node.members?
  items? := Node.items?
  text? := Node.text?
  isNull := Node.isNull
  double? n := n.plainText?.bind readDouble?
  natural? n := n.plainText?.bind fun s => readNatural? (Nat.pow 2 64) s.toList
  bool? n := n.plainText?.bind readBool?
  value? := Node.value?

end MotifQuery.Yaml
