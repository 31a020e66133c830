import MotifQuery.Cypher.Query
import MotifQuery.Proofs.Motif.Statements

/-!
# `MotifQuery.Proofs.Cypher.Compile`: what the paths and conditions of a query become

Adding paths and conditions to a motif is adding their nodes, relationships and constraints
one after the other. So entities stand in the order of first appearance
(`entities_foldl_addPath`), edges in the order of the relationships (`edges_foldl_addPath`),
and the constraints on a variable in the order of its labels and conditions
(`constraintsOn_foldl_addPath`, `constraintsOn_foldl_addCondition`).
-/

set_option autoImplicit false

namespace MotifQuery.Cypher

/-- The constraint that a node puts on an entity. -/
def NodePattern.constraintOn? (n : NodePattern) (x : String) : Option Constraint :=
  if n.variableName = x then n.label.map labelConstraint else none

/-- The constraint that a condition puts on an entity. -/
def Condition.constraintOn? (c : Condition) (x : String) : Option Constraint :=
  if c.variableName = x then some c.constraint else none

/-- The edges of a path: one for each relationship, from the tail of its arrow to the head. -/
def PathPattern.arrows (p : PathPattern) : List MotifEdge :=
  (p.nodes.zip p.steps).map fun (left, relation, right) =>
    { source := if relation.forward then left.variableName else right.variableName
      target := if relation.forward then right.variableName else left.variableName
      required := true
      constraints := relation.type.toList.map labelConstraint }

theorem PathPattern.edges_eq_arrows (p : PathPattern) : p.edges = p.arrows := by
  obtain ⟨start, steps⟩ := p
  show stepEdges start.variableName steps
    = ((start :: steps.map Prod.snd).zip steps).map _
  induction steps generalizing start with
  | nil => rfl
  | cons step rest ih =>
    rw [List.map_cons, List.zip_cons_cons, List.map_cons, ← ih step.2]
    rfl

/-! ### Nodes -/

theorem entities_addNode (m : Motif) (n : NodePattern) :
    (addNode m n).entities
      = if n.variableName ∈ m.entities then m.entities else m.entities ++ [n.variableName] := by
  rw [← Motif.entities_mention]
  unfold addNode
  cases n.label <;> rfl

theorem edges_addNode (m : Motif) (n : NodePattern) : (addNode m n).edges = m.edges := by
  rw [← Motif.edges_mention m n.variableName]
  unfold addNode
  cases n.label <;> rfl

theorem constraintsOn_addNode (m : Motif) (n : NodePattern) (x : String) :
    (addNode m n).constraintsOn x = m.constraintsOn x ++ (n.constraintOn? x).toList := by
  have hmention : (m.mention n.variableName).constraintsOn x = m.constraintsOn x := by
    rw [Motif.constraintsOn, Motif.vertexConstraints_mention, Motif.constraintsOn]
  unfold addNode NodePattern.constraintOn?
  cases n.label with
  | none =>
    show (m.mention n.variableName).constraintsOn x = _
    rw [hmention, Option.map_none, ite_self]
    exact (List.append_nil _).symm
  | some label =>
    show ((m.mention n.variableName).constrain _ _).constraintsOn x = _
    rw [Motif.constraintsOn_constrain, hmention, Option.map_some]
    split <;> rfl

theorem edges_foldl_addNode (nodes : List NodePattern) (m : Motif) :
    (nodes.foldl addNode m).edges = m.edges := by
  induction nodes generalizing m with
  | nil => rfl
  | cons n rest ih => rw [List.foldl_cons, ih, edges_addNode]

theorem entities_foldl_connect (es : List MotifEdge) (m : Motif) :
    (es.foldl Motif.connect m).entities = m.entities := by
  induction es generalizing m with
  | nil => rfl
  | cons e rest ih =>
    rw [List.foldl_cons, ih]
    rfl

theorem edges_foldl_connect (es : List MotifEdge) (m : Motif) :
    (es.foldl Motif.connect m).edges = m.edges ++ es := by
  induction es generalizing m with
  | nil => exact (List.append_nil _).symm
  | cons e rest ih =>
    rw [List.foldl_cons, ih]
    exact List.append_assoc _ _ _

theorem constraintsOn_foldl_connect (es : List MotifEdge) (m : Motif) (x : String) :
    (es.foldl Motif.connect m).constraintsOn x = m.constraintsOn x := by
  induction es generalizing m with
  | nil => rfl
  | cons e rest ih =>
    rw [List.foldl_cons, ih]
    rfl

/-! ### Paths -/

/-- The entities of paths stand in the order of first appearance. -/
theorem entities_foldl_addPath (paths : List PathPattern) :
    (paths.foldl addPath Motif.empty).entities
      = ((paths.flatMap PathPattern.nodes).map NodePattern.variableName).eraseDups := by
  have hnodes : ∀ (nodes : List NodePattern) (m : Motif),
      (nodes.foldl addNode m).entities
        = (nodes.map NodePattern.variableName).foldl
            (fun seen x => if x ∈ seen then seen else seen ++ [x]) m.entities := by
    intro nodes
    induction nodes with
    | nil => exact fun m => rfl
    | cons n rest ih =>
      intro m
      rw [List.foldl_cons, ih, entities_addNode]
      rfl
  induction paths using List.reverseRecOn with
  | nil => rfl
  | append_singleton rest p ih =>
    rw [List.foldl_concat, addPath, entities_foldl_connect, hnodes, ih,
      foldl_mention_eq_eraseDups, ← List.map_append, List.flatMap_append, List.flatMap_singleton]

/-- The edges of paths stand in the order of the relationships. -/
theorem edges_foldl_addPath (paths : List PathPattern) (m : Motif) :
    (paths.foldl addPath m).edges = m.edges ++ paths.flatMap PathPattern.arrows := by
  induction paths generalizing m with
  | nil => exact (List.append_nil _).symm
  | cons p rest ih =>
    rw [List.foldl_cons, ih, addPath, edges_foldl_connect, edges_foldl_addNode,
      p.edges_eq_arrows, List.flatMap_cons, List.append_assoc]

/-- The labels of a variable constrain it in the order of its nodes. -/
theorem constraintsOn_foldl_addPath (paths : List PathPattern) (m : Motif) (x : String) :
    (paths.foldl addPath m).constraintsOn x
      = m.constraintsOn x ++ (paths.flatMap PathPattern.nodes).filterMap (·.constraintOn? x) := by
  have hnodes : ∀ (nodes : List NodePattern) (m : Motif),
      (nodes.foldl addNode m).constraintsOn x
        = m.constraintsOn x ++ nodes.filterMap (·.constraintOn? x) := by
    intro nodes
    induction nodes with
    | nil => exact fun m => (List.append_nil _).symm
    | cons n rest ih =>
      intro m
      rw [List.foldl_cons, ih, constraintsOn_addNode, List.append_assoc, List.filterMap_cons]
      cases n.constraintOn? x <;> rfl
  induction paths generalizing m with
  | nil => exact (List.append_nil _).symm
  | cons p rest ih =>
    rw [List.foldl_cons, ih, addPath, constraintsOn_foldl_connect, hnodes, List.flatMap_cons,
      List.filterMap_append, List.append_assoc]

/-! ### Conditions -/

theorem entities_foldl_addCondition (cs : List Condition) (m : Motif) :
    (cs.foldl addCondition m).entities = m.entities := by
  induction cs generalizing m with
  | nil => rfl
  | cons c rest ih =>
    rw [List.foldl_cons, ih]
    rfl

theorem edges_foldl_addCondition (cs : List Condition) (m : Motif) :
    (cs.foldl addCondition m).edges = m.edges := by
  induction cs generalizing m with
  | nil => rfl
  | cons c rest ih =>
    rw [List.foldl_cons, ih]
    rfl

/-- Conditions constrain their variables in order. -/
theorem constraintsOn_foldl_addCondition (cs : List Condition) (m : Motif) (x : String) :
    (cs.foldl addCondition m).constraintsOn x
      = m.constraintsOn x ++ cs.filterMap (·.constraintOn? x) := by
  induction cs generalizing m with
  | nil => exact (List.append_nil _).symm
  | cons c rest ih =>
    rw [List.foldl_cons, ih, addCondition, Motif.constraintsOn_constrain, List.append_assoc,
      List.filterMap_cons, Condition.constraintOn?]
    split <;> rfl

end MotifQuery.Cypher
