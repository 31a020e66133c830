import MotifQuery.Dict
import MotifQuery.Number.Decimal

/-!
# `MotifQuery.Json.Basic`: JSON values

A value keeps whole numbers apart from doubles: a whole number within 64 bits, with or
without sign, is exact, everything else is a finite double. `Json.object` makes an object
from a dictionary, with its fields by ascending key; `Json.record` keeps the order in which
the fields are given.
-/

set_option autoImplicit false

namespace MotifQuery

/-- A JSON value. -/
inductive Json where
  | null
  | bool (b : Bool)
  | int (n : Int)
  | float (x : Float)
  | str (s : String)
  | arr (items : List Json)
  | obj (fields : List (String × Json))

namespace Json

instance : Inhabited Json := ⟨.null⟩

mutual

/-- Equality of values. -/
def decEq : (a b : Json) → Decidable (a = b)
  | .null, .null => isTrue rfl
  | .bool a, .bool b => decidable_of_iff (a = b) (by simp)
  | .int a, .int b => decidable_of_iff (a = b) (by simp)
  | .float a, .float b => decidable_of_iff (a = b) (by simp)
  | .str a, .str b => decidable_of_iff (a = b) (by simp)
  | .arr a, .arr b =>
    have := decEqItems a b
    decidable_of_iff (a = b) (by simp)
  | .obj a, .obj b =>
    have := decEqFields a b
    decidable_of_iff (a = b) (by simp)
  | .null, .bool _ | .null, .int _ | .null, .float _ | .null, .str _ | .null, .arr _
  | .null, .obj _ | .bool _, .null | .bool _, .int _ | .bool _, .float _ | .bool _, .str _
  | .bool _, .arr _ | .bool _, .obj _ | .int _, .null | .int _, .bool _ | .int _, .float _
  | .int _, .str _ | .int _, .arr _ | .int _, .obj _ | .float _, .null | .float _, .bool _
  | .float _, .int _ | .float _, .str _ | .float _, .arr _ | .float _, .obj _
  | .str _, .null | .str _, .bool _ | .str _, .int _ | .str _, .float _ | .str _, .arr _
  | .str _, .obj _ | .arr _, .null | .arr _, .bool _ | .arr _, .int _ | .arr _, .float _
  | .arr _, .str _ | .arr _, .obj _ | .obj _, .null | .obj _, .bool _ | .obj _, .int _
  | .obj _, .float _ | .obj _, .str _ | .obj _, .arr _ => isFalse (by simp)

/-- Equality of the items of two arrays. -/
def decEqItems : (a b : List Json) → Decidable (a = b)
  | [], [] => isTrue rfl
  | [], _ :: _ | _ :: _, [] => isFalse (by simp)
  | a :: as, b :: bs =>
    have := decEq a b
    have := decEqItems as bs
    decidable_of_iff (a = b ∧ as = bs) (by simp)

/-- Equality of the fields of two objects. -/
def decEqFields : (a b : List (String × Json)) → Decidable (a = b)
  | [], [] => isTrue rfl
  | [], _ :: _ | _ :: _, [] => isFalse (by simp)
  | (k, a) :: as, (l, b) :: bs =>
    have := decEq a b
    have := decEqFields as bs
    decidable_of_iff (k = l ∧ a = b ∧ as = bs) (by simp [and_assoc])

end

instance : DecidableEq Json := decEq

/-- The object with the entries of a dictionary. -/
def object (d : Dict Json) : Json :=
  .obj d.entries

/-- The object with the given fields; of two fields with one key the later stays. -/
def ofFields (fields : List (String × Json)) : Json :=
  object (Dict.ofList fields)

/-- The object with the given fields in their order. -/
def record (fields : List (String × Json)) : Json :=
  .obj fields

/-- An array of strings. -/
def strings (items : List String) : Json :=
  .arr (items.map .str)

/-- A number that may be infinite or undefined; those become `null`. -/
def ofDouble (x : Float) : Json :=
  if Number.isFinite x then .float x else .null

/-- The string, or `null` where there is none. -/
def ofString? (s : Option String) : Json :=
  (s.map .str).getD .null

/-- The number of a natural number. -/
def nat (n : Nat) : Json :=
  .int n

/-- The dictionary of an object. -/
def asDict? : Json → Option (Dict Json)
  | .obj fields => some (Dict.ofList fields)
  | _ => none

/-- The field of an object. -/
def field? (j : Json) (key : String) : Option Json :=
  match j with
  | .obj fields => lookupEntry key fields
  | _ => none

/-- The double of a number. -/
def double? : Json → Option Float
  | .int n => some (Float.ofInt n)
  | .float x => some x
  | _ => none

/-- The text of a string value. -/
def asString? : Json → Option String
  | .str s => some s
  | _ => none

end Json

end MotifQuery
