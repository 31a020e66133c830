import MotifQuery.Json.Document

/-!
# `MotifQuery.Config.Source`: where records are read from

A record of named fields can be written in several formats. A `Source` says how a node of
a format is looked at: as an object, a list, a text, a number and so on; each look fails
where the node is of another kind. `fields?` finds the fields of a record by name in an
object, where unknown names are passed over and a known one stands at most once; some
formats also have them by place in a list.
-/

set_option autoImplicit false

namespace MotifQuery

/-- The views of a node of a format. -/
structure Source (δ : Type) where
  /-- A record may be written as the list of its fields. -/
  positional : Bool
  members? : δ → Option (List (String × δ))
  items? : δ → Option (List δ)
  text? : δ → Option String
  isNull : δ → Bool
  double? : δ → Option Float
  /-- A whole number of 64 bits without sign. -/
  natural? : δ → Option Nat
  bool? : δ → Option Bool
  /-- The value of a node whose containers nest less than the number deep. -/
  value? : Nat → δ → Option Json

namespace Source

variable {δ : Type}

/-- The nodes for the names, `none` where a name is absent. -/
def pick? (names : List String) (members : List (String × δ)) : Option (List (Option δ)) :=
  names.mapM fun name =>
    match members.filter fun m => m.1 == name with
    | [] => some none
    | [m] => some (some m.2)
    | _ => none

/-- The fields of a record. -/
def fields? (s : Source δ) (names : List String) (node : δ) : Option (List (Option δ)) :=
  match if s.positional then s.items? node else none with
  | some items =>
    if items.length ≤ names.length then
      some (items.map some ++ List.replicate (names.length - items.length) none)
    else none
  | none => (s.members? node).bind (pick? names)

/-- A field that must be there. -/
def require {α : Type} (look : δ → Option α) (field : Option δ) : Option α :=
  field.bind look

/-- A field that may be absent. -/
def orElse {α : Type} (default : α) (look : δ → Option α) (field : Option δ) : Option α :=
  match field with
  | some node => look node
  | none => some default

/-- A field that may be absent or null. -/
def optional {α : Type} (s : Source δ) (default : Option α) (look : δ → Option α)
    (field : Option δ) : Option (Option α) :=
  match field with
  | none => some default
  | some node => if s.isNull node then some none else (look node).map some

/-- A list of records. -/
def list? {α : Type} (s : Source δ) (look : δ → Option α) (node : δ) : Option (List α) :=
  (s.items? node).bind fun items => items.mapM look

/-- A dictionary of values of one kind. -/
def dict? {α : Type} (s : Source δ) (look : δ → Option α) (node : δ) : Option (Dict α) :=
  (s.members? node).bind fun members =>
    (members.mapM fun (m : String × δ) => (look m.2).map fun a => (m.1, a)).map Dict.ofList

end Source

namespace Json

/-- The whole number without sign of a value. -/
def natural? : Json → Option Nat
  | .int n => if 0 ≤ n then some n.toNat else none
  | _ => none

/-- The truth value of a value. -/
def bool? : Json → Option Bool
  | .bool b => some b
  | _ => none

/-- Records in JSON values. -/
def source : Source Json where
  positional := true
  members?
    | .obj fields => some fields
    | _ => none
  items?
    | .arr items => some items
    | _ => none
  text? := asString?
  isNull
    | .null => true
    | _ => false
  double? := double?
  natural? := natural?
  bool? := bool?
  value? := fun _ j => some j

/-- Records in JSON documents. -/
def Document.source : Source Document where
  positional := true
  members?
    | .object members => some members
    | _ => none
  items?
    | .array items => some items
    | _ => none
  text?
    | .string text => text
    | _ => none
  isNull
    | .null => true
    | _ => false
  double?
    | .number text => text.value?.bind Json.double?
    | _ => none
  natural?
    | .number text => text.value?.bind Json.natural?
    | _ => none
  bool?
    | .bool b => some b
    | _ => none
  value? := Document.value?

end Json

end MotifQuery
