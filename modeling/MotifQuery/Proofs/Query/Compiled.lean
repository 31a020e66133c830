import MotifQuery.Proofs.Cypher.Matched
import MotifQuery.Proofs.Cypher.Pieces
import MotifQuery.Proofs.Cypher.Rows
import MotifQuery.Proofs.Motif.Slots
import MotifQuery.Query.Compiled

/-!
# `MotifQuery.Proofs.Query.Compiled`: a compiled query speaks of its entities only

The readers of both languages name an entity before they use it, or in the same statement. So a
query that compiles is `WellNamed`: it has entities, which are identifiers, and its edges, its
constraints and its columns are about these (`wellNamed_of_compile`).

A search relies on that. Looking a name up never fails in it, so that no default for a failed
look-up is ever used, and every match satisfies every constraint that the motif holds
(`compile_searchable`).
-/

set_option autoImplicit false

namespace MotifQuery

/-! ### The names in statements -/

namespace Motif

theorem nameText_of_readIdentifier {cs : List Char} {name : String}
    (h : readIdentifier cs = .ok name) : NameText name := by
  unfold readIdentifier at h
  dsimp only at h
  split at h
  · next hname =>
    cases h
    rwa [NameText, String.toList_ofList]
  · cases h

theorem nameText_of_parseEdge {left right : List Char} {required : Bool} {s : Statement}
    (h : Statement.parseEdge left right required = .ok s) : ∀ x ∈ s.entities, NameText x := by
  unfold Statement.parseEdge at h
  obtain ⟨source, hsource, h⟩ := bind_eq_ok_iff.1 h
  -- with or without brackets, the target is read last
  have hends : ∃ e : MotifEdge, s = .edge e ∧ e.source = source ∧ NameText e.target := by
    split at h
    · obtain ⟨target, htarget, h⟩ := bind_eq_ok_iff.1 h
      cases h
      exact ⟨_, rfl, rfl, nameText_of_readIdentifier htarget⟩
    · split at h
      · cases h
      · obtain ⟨constraints, -, h⟩ := bind_eq_ok_iff.1 h
        obtain ⟨target, htarget, h⟩ := bind_eq_ok_iff.1 h
        cases h
        exact ⟨_, rfl, rfl, nameText_of_readIdentifier htarget⟩
  obtain ⟨e, rfl, rfl, htarget⟩ := hends
  exact List.forall_mem_cons.2
    ⟨nameText_of_readIdentifier hsource, List.forall_mem_singleton.2 htarget⟩

theorem nameText_of_parseVertex {cs : List Char} {s : Statement}
    (h : Statement.parseVertex cs = .ok s) : ∀ x ∈ s.entities, NameText x := by
  unfold Statement.parseVertex at h
  obtain ⟨⟨left, comparison, value⟩, -, h⟩ := bind_eq_ok_iff.1 h
  dsimp only at h
  split at h
  · cases h
  · obtain ⟨entity, hentity, h⟩ := bind_eq_ok_iff.1 h
    obtain ⟨name, -, h⟩ := bind_eq_ok_iff.1 h
    obtain ⟨literal, -, h⟩ := bind_eq_ok_iff.1 h
    cases h
    exact List.forall_mem_singleton.2 (nameText_of_readIdentifier hentity)

/-- The entities of a statement are identifiers. -/
theorem nameText_of_parse {cs : List Char} {s : Statement} (h : Statement.parse cs = .ok s) :
    ∀ x ∈ s.entities, NameText x := by
  unfold Statement.parse at h
  split at h
  · exact nameText_of_parseEdge h
  · split at h
    · exact nameText_of_parseEdge h
    · exact nameText_of_parseVertex h

/-- The motif of a text has entities, and they are identifiers. -/
theorem names_of_parse {source : String} {m : Motif} (h : parse source = .ok m) :
    m.entities ≠ [] ∧ ∀ x ∈ m.entities, NameText x := by
  obtain ⟨ss, hne, hread, rfl⟩ := parse_eq_ok_iff.1 h
  refine ⟨mt entities_ofStatements_eq_nil_iff.1 hne, fun x hx => ?_⟩
  rw [entities_ofStatements, List.mem_eraseDups, List.mem_flatMap] at hx
  obtain ⟨s, hs, hx⟩ := hx
  -- every statement is read from a part of the text
  have hok : Except.ok s ∈ ((Text.lines source.toList).flatMap statementsOn).map Statement.parse :=
    hread ▸ List.mem_map_of_mem hs
  obtain ⟨cs, -, hcs⟩ := List.mem_map.1 hok
  exact nameText_of_parse hcs x hx

end Motif

/-! ### The names in queries -/

namespace Cypher

variable {ts rest : List Token}

theorem word_mem_tokens (n : NodePattern) : .word n.variableName ∈ n.tokens :=
  List.mem_cons_of_mem _ List.mem_cons_self

theorem StepsTokens.word_mem {steps : List (RelationPattern × NodePattern)}
    (h : StepsTokens steps ts) : ∀ step ∈ steps, .word step.2.variableName ∈ ts := by
  induction h with
  | nil => exact fun step hstep => nomatch hstep
  | cons hrelation _ ih =>
    intro step hstep
    rcases List.mem_cons.1 hstep with rfl | hstep
    · exact List.mem_append_right _ (List.mem_append_left _ (word_mem_tokens _))
    · exact List.mem_append_right _ (List.mem_append_right _ (ih step hstep))

theorem PathTokens.word_mem {p : PathPattern} (h : PathTokens p ts) {x : String}
    (hx : p.Binds x) : .word x ∈ ts := by
  obtain ⟨n, hn, rfl⟩ := hx
  cases h with
  | intro hsteps =>
    rcases List.mem_cons.1 hn with rfl | hn
    · exact List.mem_append_left _ (word_mem_tokens _)
    · obtain ⟨step, hstep, rfl⟩ := List.mem_map.1 hn
      exact List.mem_append_right _ (hsteps.word_mem step hstep)

theorem Separated.word_mem {paths : List PathPattern}
    (h : Separated PathTokens (· = .mark .comma) paths ts) {x : String}
    (hx : ∃ p ∈ paths, p.Binds x) : .word x ∈ ts := by
  induction h with
  | last hpath =>
    obtain ⟨p, hp, hx⟩ := hx
    obtain rfl := List.mem_singleton.1 hp
    exact hpath.word_mem hx
  | more hpath _ _ ih =>
    obtain ⟨p, hp, hx⟩ := hx
    rcases List.mem_cons.1 hp with rfl | hp
    · exact List.mem_append_left _ (hpath.word_mem hx)
    · exact List.mem_append_right _ (List.mem_cons_of_mem _ (ih ⟨p, hp, hx⟩))

/-- At least one variable is read. -/
theorem ne_nil_of_readVariables {known : List String} {fuel : Nat} {names : List String}
    (h : readVariables known (fuel + 1) ts = .ok (names, rest)) : names ≠ [] := by
  rw [readVariables] at h
  obtain ⟨⟨text, ts₁⟩, -, h⟩ := bind_eq_ok_iff.1 h
  dsimp only at h
  split at h
  · obtain ⟨⟨others, ts₂⟩, -, h⟩ := bind_eq_ok_iff.1 h
    cases h
    exact List.cons_ne_nil _ _
  · cases h
    exact List.cons_ne_nil _ _

/-- There are columns, and no column stands twice. -/
theorem columns_of_readColumns {known columns : List String}
    (h : readColumns known ts = .ok (columns, rest)) (hne : known ≠ []) (hnodup : known.Nodup) :
    columns ≠ [] ∧ columns.Nodup := by
  unfold readColumns at h
  split at h
  · cases h
    exact ⟨hne, hnodup⟩
  · obtain ⟨⟨names, after⟩, hnames, hout⟩ := map_eq_ok_iff.1 h
    cases hout
    obtain ⟨x, hx⟩ := List.exists_mem_of_ne_nil _ (ne_nil_of_readVariables hnames)
    exact ⟨List.ne_nil_of_mem (List.mem_eraseDups.2 hx), nodup_eraseDups names⟩

end Cypher

namespace CypherQuery

open Cypher

/-- The motif of a query has entities, and they are identifiers. -/
theorem names_of_parse_query {source : String} {q : CypherQuery} (h : parse source = .ok q) :
    q.motif.entities ≠ [] ∧ ∀ x ∈ q.motif.entities, Motif.NameText x := by
  obtain ⟨ts, hts, hq⟩ := exists_tokens_of_parse h
  obtain ⟨paths, cs, motif, hreading⟩ := exists_reading hq
  have hrelates := relates_of_reading hreading
  constructor
  · obtain ⟨p, hp, -⟩ := hrelates.some_related
    exact List.ne_nil_of_mem ((hrelates.entities_iff p.start.variableName).2
      ⟨p, hp, p.start, List.mem_cons_self, rfl⟩)
  · intro x hx
    cases matchClause_of_reading hreading with
    | intro _ hpaths _ =>
      -- the variable is a word of the clause of the paths
      refine nameText_of_mem_tokens hts (List.mem_cons_of_mem _ (List.mem_append_left _ ?_))
      exact hpaths.word_mem ((hrelates.entities_iff x).1 hx)

/-- A query returns at least one column, and none twice. -/
theorem columns_of_parse {source : String} {q : CypherQuery} (h : parse source = .ok q) :
    q.columns ≠ [] ∧ q.columns.Nodup := by
  obtain ⟨ts, -, hq⟩ := exists_tokens_of_parse h
  obtain ⟨paths, cs, motif, hreading⟩ := exists_reading hq
  obtain ⟨hpaths, -, hmotif, _, _, _, _, _, -, -, -, -, hcolumns⟩ := hreading
  have hentities : q.motif.entities = motif.entities := by
    rw [hmotif, entities_foldl_addCondition]
  refine columns_of_readColumns hcolumns (hentities ▸ (names_of_parse_query h).1) ?_
  exact hentities ▸ (wellFormed_of_parse_query h).nodup_entities

end CypherQuery

/-! ### Compiled queries -/

namespace CompiledQuery

variable {language : QueryLanguage} {source : String} {q : CompiledQuery}

/-- The query has entities, and all that it names are entities. -/
structure WellNamed (q : CompiledQuery) : Prop where
  entities_ne_nil : q.motif.entities ≠ []
  nameText : ∀ x ∈ q.motif.entities, Motif.NameText x
  wellFormed : q.motif.WellFormed
  columns_ne_nil : q.entities ≠ []
  nodup_columns : q.entities.Nodup
  columns_mem : ∀ x ∈ q.entities, x ∈ q.motif.entities

theorem wellNamed_of_compile (h : compile language source = .ok q) : q.WellNamed := by
  cases language with
  | dotmotif =>
    obtain ⟨m, hm, rfl⟩ := map_eq_ok_iff.1 h
    obtain ⟨hne, hnames⟩ := Motif.names_of_parse hm
    have hwell := Motif.wellFormed_of_parse hm
    exact ⟨hne, hnames, hwell, hne, hwell.nodup_entities, fun x hx => hx⟩
  | cypher =>
    obtain ⟨query, hquery, rfl⟩ := map_eq_ok_iff.1 h
    obtain ⟨hne, hnames⟩ := CypherQuery.names_of_parse_query hquery
    obtain ⟨hcolumns, hnodup⟩ := CypherQuery.columns_of_parse hquery
    exact ⟨hne, hnames, CypherQuery.wellFormed_of_parse_query hquery, hcolumns, hnodup,
      CypherQuery.columns_subset_of_parse hquery⟩

/-- The constraints on an entity are looked at wherever it is bound. -/
theorem WellNamed.exists_vertex (hq : q.WellNamed) {g : HostGraph} {row : Match}
    (hrow : row ∈ q.motif.find g) {x : String} {cs : List Constraint}
    (hcs : q.motif.vertexConstraints.get? x = some cs) :
    ∃ v ∈ g.vertices, row.get? x = some v.id ∧ ∀ c ∈ cs, c.satisfiedBy v.attributes = true := by
  have hx : x ∈ q.motif.entities :=
    hq.wellFormed.constrained_mem x (Dict.mem_keys_iff.2 (Option.isSome_of_eq_some hcs))
  have hvertex := Motif.exists_vertex_of_mem_find hq.wellFormed hrow hx
  rwa [Motif.constraintsOn, hcs] at hvertex

/-- What a text compiles to speaks of its entities only: they are distinct identifiers, at least
one, and edges, constraints and columns are about them. So a search in slots looks every name up
with success, in whatever graph: the search that ends at a failed look-up lists all matches, and so
does the one that takes a fallback instead. And every constraint on a vertex is satisfied wherever a
match binds it. -/
theorem compile_searchable (h : compile language source = .ok q) (g : HostGraph) :
    q.WellNamed ∧
      Motif.findInSlots q.motif.slot? q.motif g = some (q.motif.find g) ∧
      (∀ fallback, Motif.findInSlots (q.motif.slotOr fallback) q.motif g
        = some (q.motif.find g)) ∧
      ∀ row ∈ q.motif.find g, ∀ x cs, q.motif.vertexConstraints.get? x = some cs →
        ∃ v ∈ g.vertices, row.get? x = some v.id ∧
          ∀ c ∈ cs, c.satisfiedBy v.attributes = true := by
  have hq := wellNamed_of_compile h
  exact ⟨hq, Motif.findInSlots_eq hq.wellFormed q.motif.locates_slot?,
    fun fallback => Motif.findInSlots_eq hq.wellFormed (q.motif.locates_slotOr fallback),
    fun row hrow x cs hcs => hq.exists_vertex hrow hcs⟩

/-- A label and a condition constrain the same variable, and only one vertex satisfies both. -/
theorem compile_searchable_of_text :
    ∃ q g row, compile .cypher "MATCH (b)-->(a:Hub) WHERE a.size > 1 RETURN a, b, a" = .ok q ∧
      g = HostGraph.ofMentions true [
        .vertex "p" (Dict.ofList [(labelsAttribute, .str "Hub"), ("size", .int 2)]),
        .vertex "q" (Dict.ofList [(labelsAttribute, .str "Hub"), ("size", .int 1)]),
        .edge "r" "q" ∅,
        .edge "q" "p" ∅] ∧
      q.WellNamed ∧ q.entities = ["a", "b"] ∧ row = Dict.ofList [("a", "p"), ("b", "q")] ∧
      Motif.findInSlots (q.motif.slotOr 0) q.motif g = some [row] ∧
      ∃ v ∈ g.vertices, row.get? "a" = some v.id ∧
        ∀ c ∈ [Cypher.labelConstraint "Hub", ⟨"size", .gt, .int 1⟩],
          c.satisfiedBy v.attributes = true := by
  have hcompile : compile .cypher "MATCH (b)-->(a:Hub) WHERE a.size > 1 RETURN a, b, a"
      = .ok (.cypher {
          motif := {
            entities := ["b", "a"]
            edges := [⟨"b", "a", true, []⟩]
            vertexConstraints := Dict.ofList
              [("a", [Cypher.labelConstraint "Hub", ⟨"size", .gt, .int 1⟩])] }
          columns := ["a", "b"]
          limit := none }) := rfl
  obtain ⟨hnamed, -, hfallback, hvertex⟩ := compile_searchable hcompile
    (HostGraph.ofMentions true [
      .vertex "p" (Dict.ofList [(labelsAttribute, .str "Hub"), ("size", .int 2)]),
      .vertex "q" (Dict.ofList [(labelsAttribute, .str "Hub"), ("size", .int 1)]),
      .edge "r" "q" ∅,
      .edge "q" "p" ∅])
  refine ⟨_, _, _, hcompile, rfl, hnamed, rfl, rfl, (hfallback 0).trans rfl, hvertex _ ?_ _ _ rfl⟩
  exact List.mem_singleton_self _

end CompiledQuery

end MotifQuery
