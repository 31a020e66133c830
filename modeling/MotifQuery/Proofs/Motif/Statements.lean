import MotifQuery.Motif.Parser
import MotifQuery.Proofs.Dict
import MotifQuery.Proofs.Except
import MotifQuery.Proofs.Repeats

/-!
# `MotifQuery.Proofs.Motif.Statements`: motifs as lists of statements

A motif that was read is a list of statements added to the empty motif one after the
other, `Motif.ofStatements`.

* `Motif.entities_ofStatements`, `Motif.edges_ofStatements`,
  `Motif.constraintsOn_ofStatements`: entities stand in the order of first mention, edges
  and the constraints on an entity in the order of the statements.
* `Motif.readLines`: the statements on numbered lines, or the first text that is none. What
  is added on the way does not matter to it: `Motif.parse_eq` reads all statements first and
  makes the motif afterwards.
* `Motif.parse_eq_ok_iff`: the motif of a text is that of the statements in it.
* `Motif.WellFormed`: entities are distinct and nothing else is named. Statements keep it,
  so `Motif.wellFormed_of_parse` holds of every text.
-/

set_option autoImplicit false

namespace MotifQuery

open Text Number

namespace Statement

/-- The entities that a statement mentions. -/
def entities : Statement → List String
  | .edge e => [e.source, e.target]
  | .vertex entity _ => [entity]

/-- The edge of a statement. -/
def edge? : Statement → Option MotifEdge
  | .edge e => some e
  | .vertex _ _ => none

/-- The constraint that a statement puts on an entity. -/
def constraintOn? (entity : String) : Statement → Option Constraint
  | .edge _ => none
  | .vertex entity' c => if entity' = entity then some c else none

end Statement

namespace Motif

/-- The motif of a list of statements. -/
def ofStatements (ss : List Statement) : Motif :=
  ss.foldl add empty

/-- Entities are distinct, and edges and constraints name nothing else. -/
structure WellFormed (m : Motif) : Prop where
  nodup_entities : m.entities.Nodup
  source_mem : ∀ e ∈ m.edges, e.source ∈ m.entities
  target_mem : ∀ e ∈ m.edges, e.target ∈ m.entities
  constrained_mem : ∀ x ∈ m.vertexConstraints.keys, x ∈ m.entities

/-! ### Adding to a motif -/

/-- A mention is a first one or changes nothing. -/
theorem mention_eq (m : Motif) (entity : String) :
    m.mention entity = { m with
      entities := if entity ∈ m.entities then m.entities else m.entities ++ [entity] } := by
  simp only [mention, List.contains_iff_mem]
  split <;> rfl

theorem entities_mention (m : Motif) (entity : String) :
    (m.mention entity).entities
      = if entity ∈ m.entities then m.entities else m.entities ++ [entity] := by
  rw [mention_eq]

theorem edges_mention (m : Motif) (entity : String) : (m.mention entity).edges = m.edges := by
  rw [mention_eq]

theorem vertexConstraints_mention (m : Motif) (entity : String) :
    (m.mention entity).vertexConstraints = m.vertexConstraints := by
  rw [mention_eq]

theorem mem_entities_mention {m : Motif} {x entity : String} :
    x ∈ (m.mention entity).entities ↔ x ∈ m.entities ∨ x = entity := by
  rw [entities_mention]
  split
  · next h =>
    refine ⟨.inl, fun hx => ?_⟩
    rcases hx with hx | rfl
    · exact hx
    · exact h
  · rw [List.mem_append, List.mem_singleton]

theorem constraintsOn_constrain (m : Motif) (entity x : String) (c : Constraint) :
    (m.constrain entity c).constraintsOn x
      = m.constraintsOn x ++ if entity = x then [c] else [] := by
  simp only [constraintsOn, constrain, Dict.get?_update]
  by_cases hx : x = entity
  · simp [hx]
  · simp [hx, Ne.symm hx]

theorem mem_keys_constrain {m : Motif} {entity x : String} {c : Constraint} :
    x ∈ (m.constrain entity c).vertexConstraints.keys
      ↔ x ∈ m.vertexConstraints.keys ∨ x = entity := by
  simp only [Dict.mem_keys_iff, constrain, Dict.get?_update]
  by_cases hx : x = entity <;> simp [hx]

/-! ### Well-formed motifs -/

namespace WellFormed

variable {m : Motif}

theorem empty : WellFormed Motif.empty where
  nodup_entities := List.nodup_nil
  source_mem _ he := nomatch he
  target_mem _ he := nomatch he
  constrained_mem _ hx := nomatch hx

theorem mention (h : WellFormed m) (entity : String) : WellFormed (m.mention entity) where
  nodup_entities := by
    rw [entities_mention]
    split
    · exact h.nodup_entities
    · next hnew =>
      rw [← List.concat_eq_append, List.nodup_concat]
      exact ⟨hnew, h.nodup_entities⟩
  source_mem e he := by
    rw [edges_mention] at he
    exact mem_entities_mention.2 (.inl (h.source_mem e he))
  target_mem e he := by
    rw [edges_mention] at he
    exact mem_entities_mention.2 (.inl (h.target_mem e he))
  constrained_mem x hx := by
    rw [vertexConstraints_mention] at hx
    exact mem_entities_mention.2 (.inl (h.constrained_mem x hx))

/-- An edge between mentioned entities may be added. -/
theorem connect (h : WellFormed m) {e : MotifEdge} (hs : e.source ∈ m.entities)
    (ht : e.target ∈ m.entities) : WellFormed (m.connect e) where
  nodup_entities := h.nodup_entities
  source_mem f hf := by
    rcases List.mem_append.1 hf with hf | hf
    · exact h.source_mem f hf
    · exact List.mem_singleton.1 hf ▸ hs
  target_mem f hf := by
    rcases List.mem_append.1 hf with hf | hf
    · exact h.target_mem f hf
    · exact List.mem_singleton.1 hf ▸ ht
  constrained_mem := h.constrained_mem

/-- A mentioned entity may be constrained. -/
theorem constrain (h : WellFormed m) {entity : String} (hmem : entity ∈ m.entities)
    (c : Constraint) : WellFormed (m.constrain entity c) where
  nodup_entities := h.nodup_entities
  source_mem := h.source_mem
  target_mem := h.target_mem
  constrained_mem x hx := by
    rcases mem_keys_constrain.1 hx with hx | rfl
    · exact h.constrained_mem x hx
    · exact hmem

theorem add (h : WellFormed m) (s : Statement) : WellFormed (m.add s) := by
  cases s with
  | edge e =>
    refine ((h.mention e.source).mention e.target).connect ?_ ?_
    · exact mem_entities_mention.2 (.inl (mem_entities_mention.2 (.inr rfl)))
    · exact mem_entities_mention.2 (.inr rfl)
  | vertex entity c => exact (h.mention entity).constrain (mem_entities_mention.2 (.inr rfl)) c

theorem ofStatements (ss : List Statement) : WellFormed (Motif.ofStatements ss) := by
  induction ss using List.reverseRecOn with
  | nil => exact WellFormed.empty
  | append_singleton rest s ih =>
    rw [Motif.ofStatements, List.foldl_concat]
    exact ih.add s

end WellFormed

/-! ### The order of the statements -/

theorem ofStatements_concat (ss : List Statement) (s : Statement) :
    ofStatements (ss ++ [s]) = (ofStatements ss).add s :=
  List.foldl_concat _ _ _ _

theorem entities_add (m : Motif) (s : Statement) :
    (m.add s).entities
      = s.entities.foldl (fun seen x => if x ∈ seen then seen else seen ++ [x]) m.entities := by
  cases s with
  | edge e =>
    show ((m.mention e.source).mention e.target).entities = _
    rw [entities_mention, entities_mention]
    rfl
  | vertex entity c => exact entities_mention m entity

/-- Entities stand in the order of first mention. -/
theorem entities_ofStatements (ss : List Statement) :
    (ofStatements ss).entities = (ss.flatMap Statement.entities).eraseDups := by
  induction ss using List.reverseRecOn with
  | nil => rfl
  | append_singleton rest s ih =>
    rw [ofStatements_concat, entities_add, ih, List.flatMap_append, List.flatMap_singleton,
      foldl_mention_eq_eraseDups]

/-- Edges stand in the order of the statements. -/
theorem edges_ofStatements (ss : List Statement) :
    (ofStatements ss).edges = ss.filterMap Statement.edge? := by
  induction ss using List.reverseRecOn with
  | nil => rfl
  | append_singleton rest s ih =>
    rw [ofStatements_concat, List.filterMap_append, ← ih]
    cases s with
    | edge e =>
      -- mentioning the ends leaves the edges alone
      show ((_ : Motif).mention e.target).edges ++ [e] = _
      rw [edges_mention, edges_mention]
      rfl
    | vertex entity c =>
      show ((_ : Motif).mention entity).edges = _
      rw [edges_mention]
      exact (List.append_nil _).symm

/-- The constraints on an entity stand in the order of the statements. -/
theorem constraintsOn_ofStatements (ss : List Statement) (x : String) :
    (ofStatements ss).constraintsOn x = ss.filterMap (Statement.constraintOn? x) := by
  induction ss using List.reverseRecOn with
  | nil => rfl
  | append_singleton rest s ih =>
    rw [ofStatements_concat, List.filterMap_append, ← ih]
    -- only `constrain` changes what is known of an entity
    have hmention : ∀ (m : Motif) (entity : String),
        (m.mention entity).constraintsOn x = m.constraintsOn x := fun m entity => by
      rw [constraintsOn, vertexConstraints_mention, constraintsOn]
    cases s with
    | edge e =>
      show ((_ : Motif).mention e.target).constraintsOn x = _
      rw [hmention, hmention]
      exact (List.append_nil _).symm
    | vertex entity c =>
      show (((_ : Motif).mention entity).constrain entity c).constraintsOn x = _
      rw [constraintsOn_constrain, hmention]
      congr 1
      simp only [Statement.constraintOn?, List.filterMap_cons, List.filterMap_nil]
      split <;> simp [*]

/-- A motif of statements has entities, unless there are no statements. -/
theorem entities_ofStatements_eq_nil_iff {ss : List Statement} :
    (ofStatements ss).entities = [] ↔ ss = [] := by
  rw [entities_ofStatements]
  constructor
  · intro h
    cases ss with
    | nil => rfl
    | cons s rest =>
      -- every statement names an entity
      obtain ⟨x, hx⟩ : ∃ x, x ∈ s.entities := by
        cases s with
        | edge e => exact ⟨e.source, List.mem_cons_self⟩
        | vertex entity c => exact ⟨entity, List.mem_cons_self⟩
      have hmem : x ∈ ((s :: rest).flatMap Statement.entities).eraseDups := by
        rw [List.mem_eraseDups, List.flatMap_cons]
        exact List.mem_append_left _ hx
      rw [h] at hmem
      cases hmem
  · rintro rfl
    rfl

/-! ### Reading statements -/

/-- A text where a statement should stand that is none, and the number of its line. -/
structure Misread where
  line : Nat
  text : List Char
  fault : Fault

/-- The failure of a text that is no statement. -/
def Misread.toFailure (e : Misread) : Failure :=
  (e.fault.toFailure.withContext "line" (natText e.line)).withContext "statement"
    (String.ofList e.text)

/-- The texts of the statements on a line, each with the number of the line. -/
def numbered (line : List Char × Nat) : List (List Char × Nat) :=
  (statementsOn line.1).map fun cs => (cs, line.2)

/-- Reads the text of a statement. -/
def readNumbered (text : List Char × Nat) : Except Misread Statement :=
  (Statement.parse text.1).mapError (Misread.mk text.2 text.1)

/-- The statements on lines numbered from `n`, or the first text that is none. -/
def readLines (n : Nat) (ls : List (List Char)) : Except Misread (List Statement) :=
  ((ls.zipIdx n).flatMap numbered).mapM readNumbered

/-- Adds the statements that were read. -/
def addRead (m : Motif) (reading : Except Misread (List Statement)) : Except Failure Motif :=
  (reading.map fun ss => ss.foldl add m).mapError Misread.toFailure

theorem readNumbered_eq_ok_iff {text : List Char × Nat} {s : Statement} :
    readNumbered text = .ok s ↔ Statement.parse text.1 = .ok s := by
  unfold readNumbered
  cases Statement.parse text.1 <;> simp [Except.mapError]

/-- Lines are read one part after the other; the second part is numbered on. -/
theorem readLines_append (n : Nat) (ls ls' : List (List Char)) :
    readLines n (ls ++ ls') = (do
      let ss ← readLines n ls
      let ss' ← readLines (n + ls.length) ls'
      pure (ss ++ ss')) := by
  simp only [readLines, List.zipIdx_append, List.flatMap_append, List.mapM_append]

/-- Lines are read when all their statements are. -/
theorem readLines_eq_ok_iff {n : Nat} {ls : List (List Char)} {ss : List Statement} :
    readLines n ls = .ok ss
      ↔ (ls.flatMap statementsOn).map Statement.parse = ss.map .ok := by
  have htexts : ((ls.zipIdx n).flatMap numbered).map Prod.fst = ls.flatMap statementsOn := by
    rw [List.map_flatMap, ← List.zipIdx_map_fst n ls, List.flatMap_map, List.zipIdx_map_fst]
    refine congrArg (List.flatMap · _) (funext fun line => ?_)
    rw [numbered, List.map_map]
    exact List.map_id _
  rw [readLines, mapM_eq_ok_iff, ← htexts, List.map_map, map_eq_map_ok_iff, map_eq_map_ok_iff]
  simp only [readNumbered_eq_ok_iff, Function.comp_apply]

theorem addLine_eq (n : Nat) (m : Motif) (line : List Char) :
    addLine n m line = addRead m (readLines n [line]) := by
  rw [addLine, readLines, List.zipIdx_singleton, List.flatMap_singleton, numbered]
  -- over the statements, as the line is folded; the motif so far is arbitrary
  induction statementsOn line generalizing m with
  | nil => rfl
  | cons cs rest ih =>
    rw [List.foldlM_cons, List.map_cons, List.mapM_cons, readNumbered]
    cases Statement.parse cs with
    | error fault => rfl
    | ok s =>
      refine (ih (m.add s)).trans ?_
      cases (rest.map fun cs => (cs, n)).mapM readNumbered <;> rfl

theorem addLines_eq (n : Nat) (m : Motif) (ls : List (List Char)) :
    addLines n m ls = addRead m (readLines n ls) := by
  induction ls generalizing n m with
  | nil => rfl
  | cons line rest ih =>
    have hrest := readLines_append n [line] rest
    rw [List.singleton_append, List.length_singleton] at hrest
    rw [addLines, addLine_eq, hrest]
    cases readLines n [line] with
    | error e => rfl
    | ok ss =>
      refine (ih (n + 1) (ss.foldl add m)).trans ?_
      cases readLines (n + 1) rest with
      | error e => rfl
      | ok ss' => exact congrArg Except.ok List.foldl_append.symm

/-- A text is the motif of its statements, unless it has none or one cannot be read. -/
theorem parse_eq (source : String) :
    parse source =
      match readLines 1 (lines source.toList) with
      | .ok [] => .error Fault.empty.toFailure
      | .ok ss => .ok (ofStatements ss)
      | .error e => .error e.toFailure := by
  rw [parse, addLines_eq]
  cases readLines 1 (lines source.toList) with
  | error e => rfl
  | ok ss =>
    cases ss with
    | nil => rfl
    | cons s ss =>
      refine if_neg fun hempty => List.cons_ne_nil s ss ?_
      exact entities_ofStatements_eq_nil_iff.1 (List.isEmpty_iff.1 hempty)

/-- A text is read when it has statements and each can be read. -/
theorem parse_eq_ok_iff {source : String} {m : Motif} :
    parse source = .ok m
      ↔ ∃ ss : List Statement, ss ≠ [] ∧
          ((Text.lines source.toList).flatMap statementsOn).map Statement.parse = ss.map .ok ∧
          m = ofStatements ss := by
  simp only [← readLines_eq_ok_iff (n := 1), parse_eq]
  cases readLines 1 (lines source.toList) with
  | error e => simp
  | ok ss => cases ss <;> simp [eq_comm]

/-- The motif of a text is well-formed. -/
theorem wellFormed_of_parse {source : String} {m : Motif} (h : parse source = .ok m) :
    WellFormed m := by
  obtain ⟨ss, -, -, rfl⟩ := parse_eq_ok_iff.1 h
  exact WellFormed.ofStatements ss

end Motif

end MotifQuery
