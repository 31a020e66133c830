import MotifQuery.Cypher.Syntax
import MotifQuery.Motif.Search

/-!
# `MotifQuery.Cypher.Query`: queries as motifs

The paths and conditions of a query become a motif: a variable is an entity, a
relationship a required edge from the tail of its arrow to the head, a label or type a
constraint on the labels attribute, and a condition a constraint. The rows of a query are
the matches of its motif restricted to the returned variables, as many as the limit
allows.
-/

set_option autoImplicit false

namespace MotifQuery

namespace Cypher

/-- The constraint that a label or type stands for. -/
def labelConstraint (label : String) : Constraint :=
  { name := labelsAttribute, comparison := .eq, value := .str label }

/-- The nodes of a path in order. -/
def PathPattern.nodes (p : PathPattern) : List NodePattern :=
  p.start :: p.steps.map Prod.snd

/-- The edge of a relationship between two nodes. -/
def RelationPattern.edge (r : RelationPattern) (left right : String) : MotifEdge :=
  { source := if r.forward then left else right
    target := if r.forward then right else left
    required := true
    constraints := r.type.toList.map labelConstraint }

/-- The edges of the steps after a node. -/
def stepEdges : String → List (RelationPattern × NodePattern) → List MotifEdge
  | _, [] => []
  | left, (relation, node) :: rest =>
    relation.edge left node.variableName :: stepEdges node.variableName rest

/-- The edges of a path in order. -/
def PathPattern.edges (p : PathPattern) : List MotifEdge :=
  stepEdges p.start.variableName p.steps

/-- Adds the entity and the label of a node. -/
def addNode (m : Motif) (node : NodePattern) : Motif :=
  let m := m.mention node.variableName
  match node.label with
  | some label => m.constrain node.variableName (labelConstraint label)
  | none => m

/-- Adds a path. -/
def addPath (m : Motif) (p : PathPattern) : Motif :=
  p.edges.foldl Motif.connect (p.nodes.foldl addNode m)

/-- Adds a condition. -/
def addCondition (m : Motif) (c : Condition) : Motif :=
  m.constrain c.variableName c.constraint

end Cypher

/-- A compiled query. -/
structure CypherQuery where
  motif : Motif
  /-- The returned variables. -/
  columns : List String
  limit : Option Nat
deriving DecidableEq

namespace CypherQuery

open Cypher

/-- Reads a query from its tokens. -/
def ofTokens (tokens : List Token) : Except Fault CypherQuery := do
  let tokens ← skipKeyword "MATCH" tokens
  let (paths, tokens) ← readPaths (tokens.length + 1) tokens
  -- the paths are known in full before the conditions, which may name any of their variables
  let motif := paths.foldl addPath .empty
  if motif.edges.isEmpty then
    throw (.unsupported "MATCH needs at least one relationship")
  let (conditions, tokens) ← readWhere motif.entities tokens
  let tokens ← skipKeyword "RETURN" tokens
  let (columns, tokens) ← readColumns motif.entities tokens
  let (limit, tokens) ← readLimit tokens
  readEnd tokens
  pure { motif := conditions.foldl addCondition motif, columns, limit }

/-- Reads a query. -/
def parse (source : String) : Except Failure CypherQuery :=
  match tokens source.toList with
  | .error fault => .error (Fault.lexical fault).toFailure
  | .ok tokens =>
    match ofTokens tokens with
    | .error fault => .error fault.toFailure
    | .ok query => .ok query

/-- The number of rows. -/
def count (q : CypherQuery) (g : HostGraph) : Nat :=
  match q.limit with
  | some limit => min (q.motif.count g) limit
  | none => q.motif.count g

/-- A match restricted to the returned variables. -/
def restrict (q : CypherQuery) (row : Match) : Match :=
  row.filter fun entity _ => q.columns.contains entity

/-- The rows. -/
def find (q : CypherQuery) (g : HostGraph) : List Match :=
  let rows := (q.motif.find g).map q.restrict
  match q.limit with
  | some limit => rows.take limit
  | none => rows

end CypherQuery

end MotifQuery
