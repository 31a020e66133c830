import MotifQuery.Failure
import MotifQuery.Graph.Basic

/-!
# `MotifQuery.Motif.Basic`: motifs and constraints

A motif is a small query graph. Its entities are listed in the order of first mention;
its edges are required or forbidden and may constrain the attributes of the host edge;
constraints on an entity restrict the attributes of the host vertex. A missing attribute
satisfies no constraint. Two values are comparable when both are numbers, both strings or
both truth values, or when a string that writes a number meets a number; values that are
not comparable differ.
-/

set_option autoImplicit false

namespace MotifQuery

/-- The comparison operators. -/
inductive Comparison where
  | eq
  | ne
  | gt
  | ge
  | lt
  | le
deriving DecidableEq, Repr

namespace Comparison

/-- The sign of an operator. -/
def sign : Comparison → String
  | eq => "=="
  | ne => "!="
  | gt => ">"
  | ge => ">="
  | lt => "<"
  | le => "<="

/-- Does the operator hold of two values in this order? -/
def holds : Comparison → Ordering → Bool
  | eq, o => o == .eq
  | ne, o => o != .eq
  | gt, o => o == .gt
  | ge, o => o != .lt
  | lt, o => o == .lt
  | le, o => o != .gt

end Comparison

/-- A condition on one attribute. -/
structure Constraint where
  name : String
  comparison : Comparison
  value : Json
deriving DecidableEq

/-- The order of two doubles; an undefined one has none. -/
def orderDoubles? (x y : Float) : Option Ordering :=
  if x < y then some .lt
  else if x == y then some .eq
  else if y < x then some .gt
  else none

/-- The order of an attribute value and the value of a constraint, when they are
comparable. -/
def orderValues? (actual wanted : Json) : Option Ordering :=
  match actual, wanted with
  | .str a, .str b => some (compare a b)
  | .bool a, .bool b => some (compare a b)
  -- a text that writes a number is compared as that number, never the other way round
  | .str a, b =>
    match Number.readDouble? a.toList, b.double? with
    | some x, some y => orderDoubles? x y
    | _, _ => none
  | a, b =>
    match a.double?, b.double? with
    | some x, some y => orderDoubles? x y
    | _, _ => none

namespace Constraint

/-- Do the attributes satisfy the constraint? -/
def satisfiedBy (c : Constraint) (attributes : Attributes) : Bool :=
  match attributes.get? c.name with
  | none => false
  | some actual =>
    match orderValues? actual c.value with
    | some o => c.comparison.holds o
    -- values that are not comparable differ
    | none => c.comparison == .ne

/-- A constraint as an object. -/
def toJson (c : Constraint) : Json :=
  .ofFields [
    ("attribute", .str c.name),
    ("op", .str c.comparison.sign),
    ("value", c.value)]

end Constraint

/-- An edge of a motif. -/
structure MotifEdge where
  source : String
  target : String
  /-- A forbidden edge must be absent. -/
  required : Bool
  constraints : List Constraint := []
deriving DecidableEq

namespace MotifEdge

/-- Does the edge touch an entity? -/
def touches (e : MotifEdge) (entity : String) : Bool :=
  e.source == entity || e.target == entity

/-- Do the attributes of a host edge satisfy all constraints of the edge? -/
def admits (e : MotifEdge) (attributes : Attributes) : Bool :=
  e.constraints.all fun c => c.satisfiedBy attributes

/-- An edge as an object. -/
def toJson (e : MotifEdge) : Json :=
  .ofFields [
    ("source", .str e.source),
    ("target", .str e.target),
    ("exists", .bool e.required),
    ("constraints", .arr (e.constraints.map Constraint.toJson))]

end MotifEdge

/-- A motif. -/
structure Motif where
  entities : List String := []
  edges : List MotifEdge := []
  vertexConstraints : Dict (List Constraint) := ∅
deriving DecidableEq

namespace Motif

/-- The motif without entities. -/
def empty : Motif := {}

/-- Mentions an entity. -/
def mention (m : Motif) (entity : String) : Motif :=
  if m.entities.contains entity then m else { m with entities := m.entities ++ [entity] }

/-- Adds a constraint on an entity. -/
def constrain (m : Motif) (entity : String) (c : Constraint) : Motif :=
  { m with vertexConstraints := m.vertexConstraints.update entity [] (· ++ [c]) }

/-- Adds an edge. -/
def connect (m : Motif) (e : MotifEdge) : Motif :=
  { m with edges := m.edges ++ [e] }

/-- The constraints on an entity. -/
def constraintsOn (m : Motif) (entity : String) : List Constraint :=
  (m.vertexConstraints.get? entity).getD []

/-- The ends of the required edges. -/
def requiredEdges (m : Motif) : List (String × String) :=
  (m.edges.filter (·.required)).map fun e => (e.source, e.target)

/-- The motif as a node-link object, constraints included. -/
def toNodeLink (m : Motif) : Json :=
  .ofFields [
    ("directed", .bool true),
    ("multigraph", .bool false),
    ("nodes", .arr (m.entities.map fun id =>
      .ofFields [
        ("id", .str id),
        ("constraints", .arr ((m.constraintsOn id).map Constraint.toJson))])),
    ("links", .arr (m.edges.map MotifEdge.toJson))]

end Motif

end MotifQuery
