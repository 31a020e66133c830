import MotifQuery.Cypher.Query
import MotifQuery.Proofs.Except
import MotifQuery.Proofs.Motif.Statements

/-!
# `MotifQuery.Proofs.Cypher.WellFormed`: the motifs of queries are well-formed

A query becomes a motif by adding its paths and then its conditions. The edges of a path
run between its own nodes, which are mentioned first, and a condition is read only for a
variable of the paths. So `wellFormed_of_parse_query`: the motif of every query that is
read is well-formed.
-/

set_option autoImplicit false

namespace MotifQuery

namespace Cypher

/-! ### Adding paths and conditions -/

theorem mem_entities_addNode {m : Motif} {node : NodePattern} {x : String} :
    x ∈ (addNode m node).entities ↔ x ∈ m.entities ∨ x = node.variableName := by
  rw [← Motif.mem_entities_mention]
  unfold addNode
  cases node.label <;> exact Iff.rfl

theorem mem_entities_foldl_addNode {nodes : List NodePattern} {m : Motif} {x : String} :
    x ∈ (nodes.foldl addNode m).entities
      ↔ x ∈ m.entities ∨ ∃ node ∈ nodes, x = node.variableName := by
  induction nodes generalizing m with
  | nil => simp
  | cons node rest ih =>
    rw [List.foldl_cons, ih, mem_entities_addNode, or_assoc]
    simp

theorem wellFormed_addNode {m : Motif} (h : m.WellFormed) (node : NodePattern) :
    (addNode m node).WellFormed := by
  unfold addNode
  cases node.label with
  | none => exact h.mention node.variableName
  | some label =>
    exact (h.mention node.variableName).constrain (Motif.mem_entities_mention.2 (.inr rfl)) _

/-- The edge of a relationship runs between its two nodes. -/
theorem ends_edge (r : RelationPattern) (left right : String) {P : String → Prop}
    (hleft : P left) (hright : P right) :
    P (r.edge left right).source ∧ P (r.edge left right).target := by
  unfold RelationPattern.edge
  cases r.forward
  · exact ⟨hright, hleft⟩
  · exact ⟨hleft, hright⟩

/-- The edges of steps run between the nodes of the steps and the one before them. -/
theorem ends_stepEdges {P : String → Prop} {left : String}
    {steps : List (RelationPattern × NodePattern)} (hleft : P left)
    (hsteps : ∀ step ∈ steps, P step.2.variableName) :
    ∀ e ∈ stepEdges left steps, P e.source ∧ P e.target := by
  induction steps generalizing left with
  | nil => exact fun e he => nomatch he
  | cons step rest ih =>
    intro e he
    have hnode := hsteps step List.mem_cons_self
    rcases List.mem_cons.1 he with rfl | he
    · exact ends_edge step.1 left _ hleft hnode
    · exact ih hnode (fun s hs => hsteps s (List.mem_cons_of_mem _ hs)) e he

/-- The edges of a path run between its nodes. -/
theorem ends_path (p : PathPattern) {P : String → Prop}
    (h : ∀ node ∈ p.nodes, P node.variableName) : ∀ e ∈ p.edges, P e.source ∧ P e.target := by
  refine ends_stepEdges (h _ List.mem_cons_self) fun step hstep => ?_
  exact h _ (List.mem_cons_of_mem _ (List.mem_map_of_mem hstep))

/-- Edges between mentioned entities may be added one after the other. -/
theorem wellFormed_foldl_connect {m : Motif} (h : m.WellFormed) {es : List MotifEdge}
    (hes : ∀ e ∈ es, e.source ∈ m.entities ∧ e.target ∈ m.entities) :
    (es.foldl Motif.connect m).WellFormed := by
  induction es generalizing m with
  | nil => exact h
  | cons e rest ih =>
    obtain ⟨hs, ht⟩ := hes e List.mem_cons_self
    exact ih (h.connect hs ht) fun f hf => hes f (List.mem_cons_of_mem _ hf)

theorem wellFormed_addPath {m : Motif} (h : m.WellFormed) (p : PathPattern) :
    (addPath m p).WellFormed := by
  have hnodes : ∀ nodes : List NodePattern, ∀ m : Motif, m.WellFormed →
      (nodes.foldl addNode m).WellFormed := by
    intro nodes
    induction nodes with
    | nil => exact fun _ hm => hm
    | cons node rest ih => exact fun m hm => ih _ (wellFormed_addNode hm node)
  refine wellFormed_foldl_connect (hnodes _ _ h) (ends_path p fun node hnode => ?_)
  exact mem_entities_foldl_addNode.2 (.inr ⟨node, hnode, rfl⟩)

theorem wellFormed_foldl_addPath (paths : List PathPattern) :
    (paths.foldl addPath Motif.empty).WellFormed := by
  induction paths using List.reverseRecOn with
  | nil => exact Motif.WellFormed.empty
  | append_singleton rest p ih =>
    rw [List.foldl_concat]
    exact wellFormed_addPath ih p

/-- Conditions on mentioned variables may be added. -/
theorem wellFormed_foldl_addCondition {m : Motif} (h : m.WellFormed) {cs : List Condition}
    (hcs : ∀ c ∈ cs, c.variableName ∈ m.entities) :
    (cs.foldl addCondition m).WellFormed := by
  induction cs generalizing m with
  | nil => exact h
  | cons c rest ih =>
    exact ih (h.constrain (hcs c List.mem_cons_self) c.constraint)
      fun d hd => hcs d (List.mem_cons_of_mem _ hd)

/-! ### Conditions name known variables -/

theorem mem_of_readKnown {known : List String} {tokens rest : List Token} {text : String}
    (h : readKnown known tokens = .ok (text, rest)) : text ∈ known := by
  unfold readKnown at h
  obtain ⟨⟨text', tokens'⟩, -, h⟩ := bind_eq_ok_iff.1 h
  dsimp only at h
  split at h
  · next hmem =>
    cases h
    exact List.contains_iff_mem.1 hmem
  · cases h

theorem mem_of_readCondition {known : List String} {tokens rest : List Token} {c : Condition}
    (h : readCondition known tokens = .ok (c, rest)) : c.variableName ∈ known := by
  unfold readCondition at h
  obtain ⟨⟨text, tokens₁⟩, hknown, h⟩ := bind_eq_ok_iff.1 h
  obtain ⟨tokens₂, -, h⟩ := bind_eq_ok_iff.1 h
  obtain ⟨⟨name, tokens₃⟩, -, h⟩ := bind_eq_ok_iff.1 h
  obtain ⟨⟨⟨comparison, signed⟩, tokens₄⟩, -, h⟩ := bind_eq_ok_iff.1 h
  obtain ⟨⟨value, tokens₅⟩, -, h⟩ := bind_eq_ok_iff.1 h
  cases h
  exact mem_of_readKnown hknown

theorem mem_of_readConditions {known : List String} {fuel : Nat} {tokens rest : List Token}
    {cs : List Condition} (h : readConditions known fuel tokens = .ok (cs, rest)) :
    ∀ c ∈ cs, c.variableName ∈ known := by
  induction fuel generalizing tokens cs with
  | zero =>
    cases h
    exact fun c hc => nomatch hc
  | succ fuel ih =>
    rw [readConditions] at h
    obtain ⟨⟨c, tokens₁⟩, hc, h⟩ := bind_eq_ok_iff.1 h
    have hmem := mem_of_readCondition hc
    dsimp only at h
    split at h
    · obtain ⟨⟨others, tokens₂⟩, hothers, h⟩ := bind_eq_ok_iff.1 h
      cases h
      exact List.forall_mem_cons.2 ⟨hmem, ih hothers⟩
    · cases h
      exact List.forall_mem_cons.2 ⟨hmem, fun c hc => nomatch hc⟩

theorem mem_of_readWhere {known : List String} {tokens rest : List Token}
    {cs : List Condition} (h : readWhere known tokens = .ok (cs, rest)) :
    ∀ c ∈ cs, c.variableName ∈ known := by
  unfold readWhere at h
  split at h
  · exact mem_of_readConditions h
  · cases h
    exact fun c hc => nomatch hc

/-! ### Columns are known variables -/

theorem mem_of_readVariables {known : List String} {fuel : Nat} {tokens rest : List Token}
    {names : List String} (h : readVariables known fuel tokens = .ok (names, rest)) :
    ∀ x ∈ names, x ∈ known := by
  induction fuel generalizing tokens names with
  | zero =>
    cases h
    exact fun x hx => nomatch hx
  | succ fuel ih =>
    rw [readVariables] at h
    obtain ⟨⟨text, tokens₁⟩, hknown, h⟩ := bind_eq_ok_iff.1 h
    have hmem := mem_of_readKnown hknown
    dsimp only at h
    split at h
    · obtain ⟨⟨others, tokens₂⟩, hothers, h⟩ := bind_eq_ok_iff.1 h
      cases h
      exact List.forall_mem_cons.2 ⟨hmem, ih hothers⟩
    · cases h
      exact List.forall_mem_cons.2 ⟨hmem, fun x hx => nomatch hx⟩

theorem mem_of_readColumns {known : List String} {tokens rest : List Token}
    {columns : List String} (h : readColumns known tokens = .ok (columns, rest)) :
    ∀ x ∈ columns, x ∈ known := by
  unfold readColumns at h
  split at h
  · cases h
    exact fun x hx => hx
  · cases hnames : readVariables known (tokens.length + 1) tokens with
    | error f => rw [hnames] at h; cases h
    | ok out =>
      rw [hnames] at h
      cases h
      exact fun x hx => mem_of_readVariables hnames x (List.mem_eraseDups.1 hx)

end Cypher

/-! ### Queries -/

namespace CypherQuery

open Cypher

/-- What a reading of a query has read, clause after clause. -/
structure Reading (tokens : List Token) (q : CypherQuery) (paths : List PathPattern)
    (cs : List Condition) (motif : Motif) : Prop where
  paths_eq : motif = paths.foldl addPath Motif.empty
  edges_ne_nil : motif.edges ≠ []
  motif_eq : q.motif = cs.foldl addCondition motif
  clauses : ∃ afterMatch afterPaths afterWhere afterReturn afterColumns,
    skipKeyword "MATCH" tokens = .ok afterMatch ∧
    readPaths (afterMatch.length + 1) afterMatch = .ok (paths, afterPaths) ∧
    readWhere motif.entities afterPaths = .ok (cs, afterWhere) ∧
    skipKeyword "RETURN" afterWhere = .ok afterReturn ∧
    readColumns motif.entities afterReturn = .ok (q.columns, afterColumns)

theorem exists_reading {tokens : List Token} {q : CypherQuery} (h : ofTokens tokens = .ok q) :
    ∃ paths cs motif, Reading tokens q paths cs motif := by
  unfold ofTokens at h
  obtain ⟨tokens₁, hmatch, h⟩ := bind_eq_ok_iff.1 h
  obtain ⟨⟨paths, tokens₂⟩, hpaths, h⟩ := bind_eq_ok_iff.1 h
  dsimp only at h
  split at h
  · cases h
  · next hedges =>
    obtain ⟨⟨cs, tokens₃⟩, hcs, h⟩ := bind_eq_ok_iff.1 h
    obtain ⟨tokens₄, hreturn, h⟩ := bind_eq_ok_iff.1 h
    obtain ⟨⟨columns, tokens₅⟩, hcolumns, h⟩ := bind_eq_ok_iff.1 h
    obtain ⟨⟨limit, tokens₆⟩, -, h⟩ := bind_eq_ok_iff.1 h
    obtain ⟨-, -, h⟩ := bind_eq_ok_iff.1 h
    cases h
    exact ⟨paths, cs, _, rfl, fun hnil => hedges (List.isEmpty_iff.2 hnil), rfl,
      _, _, _, _, _, hmatch, hpaths, hcs, hreturn, hcolumns⟩

/-- The motif of a query is that of its paths and conditions, and its columns are variables of
the paths. -/
theorem exists_paths_of_ofTokens {tokens : List Token} {q : CypherQuery}
    (h : ofTokens tokens = .ok q) :
    ∃ (paths : List PathPattern) (cs : List Condition),
      q.motif = cs.foldl addCondition (paths.foldl addPath Motif.empty) ∧
      (∀ c ∈ cs, c.variableName ∈ (paths.foldl addPath Motif.empty).entities) ∧
      ∀ x ∈ q.columns, x ∈ (paths.foldl addPath Motif.empty).entities := by
  obtain ⟨paths, cs, motif, rfl, -, hmotif, _, _, _, _, _, -, -, hcs, -, hcolumns⟩ :=
    exists_reading h
  exact ⟨paths, cs, hmotif, mem_of_readWhere hcs, mem_of_readColumns hcolumns⟩

/-- A query that is read is read from tokens. -/
theorem exists_tokens_of_parse {source : String} {q : CypherQuery} (h : parse source = .ok q) :
    ∃ ts, tokens source.toList = .ok ts ∧ ofTokens ts = .ok q := by
  unfold parse at h
  split at h
  · cases h
  · next hts =>
    split at h
    · cases h
    · next hq =>
      cases h
      exact ⟨_, hts, hq⟩

/-- The motif of a query is well-formed. -/
theorem wellFormed_of_parse_query {source : String} {q : CypherQuery}
    (h : parse source = .ok q) : q.motif.WellFormed := by
  obtain ⟨ts, -, hq⟩ := exists_tokens_of_parse h
  obtain ⟨paths, cs, hmotif, hcs, -⟩ := exists_paths_of_ofTokens hq
  rw [hmotif]
  exact wellFormed_foldl_addCondition (wellFormed_foldl_addPath paths) hcs

end CypherQuery

end MotifQuery
