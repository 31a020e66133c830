import MotifQuery.Aggregation.Directive
import MotifQuery.Motif.Search

/-!
# `MotifQuery.Aggregation.Basic`: aggregated matches

Grouping counts, for every pair of keys, the bindings of all matches that have them; a
pair that no binding has is absent. The key of an attribute value is the text of a string,
the JSON text of any other value, and `null` where the host vertex has none. A sample
draws matches without putting them back, from a seed.
-/

set_option autoImplicit false

namespace MotifQuery

/-- An outer key, an inner key, and how many bindings have both. -/
abbrev GroupedCounts := Dict (Dict Nat)

/-- What an aggregation gives. -/
inductive AggregatedResults where
  | listed (rows : List Match)
  | grouped (counts : GroupedCounts)
deriving DecidableEq

/-- The results as JSON. -/
def AggregatedResults.toJson : AggregatedResults → Json
  | listed rows => .arr (rows.map fun row => .object (row.map .str))
  | grouped counts => .object (counts.map fun inner => .object (inner.map .nat))

/-- Counts one binding more. -/
def GroupedCounts.tally (counts : GroupedCounts) (outer inner : String) : GroupedCounts :=
  counts.update outer ∅ fun d => d.update inner 0 (· + 1)

/-- Counts the bindings of all matches by the keys of entity and host vertex. -/
def groupBy (key : String → String → String × String) (rows : List Match) : GroupedCounts :=
  rows.foldl
    (fun counts row =>
      row.entries.foldl
        (fun counts bound =>
          let (outer, inner) := key bound.1 bound.2
          counts.tally outer inner)
        counts)
    (∅ : Dict (Dict Nat))

/-- The key of an attribute value. -/
def attributeKey (value : Option Json) : String :=
  match value with
  | some (.str s) => s
  | some value => value.compact
  | none => "null"

/-- Draws `n` items without putting them back. -/
def draw {α : Type} : Nat → StdGen → List α → List α
  | 0, _, _ => []
  | n + 1, gen, items =>
    let (i, gen) := randNat gen 0 (items.length - 1)
    match items[i]? with
    | some item => item :: draw n gen (items.eraseIdx i)
    | none => []

/-- Aggregates matches. `attributes` holds the required attribute of the host vertices. -/
def Aggregation.apply (a : Aggregation) (seed : Nat) (attributes : Dict Json)
    (rows : List Match) : Except Failure AggregatedResults :=
  match a with
  | .identity => .ok (.listed rows)
  | .hostVertex => .ok (.grouped (groupBy (fun entity host => (host, entity)) rows))
  | .motifVertex => .ok (.grouped (groupBy (fun entity host => (entity, host)) rows))
  | .vertexAttribute _ =>
    .ok (.grouped (groupBy
      (fun entity host => (entity, attributeKey (attributes.get? host))) rows))
  | .sample limit =>
    if rows.length < limit then
      .error (.invalidAggregation
        ("Sample limit " ++ Number.natText limit ++ " exceeds the "
          ++ Number.natText rows.length ++ " available matches") "aggregation")
    else .ok (.listed (draw limit (mkStdGen seed) rows))

end MotifQuery
