import Mathlib.Data.Nat.Factorial.Basic
import MotifQuery.Proofs.Graph.Complete
import MotifQuery.Proofs.Motif.Matches

/-!
# `MotifQuery.Proofs.Motif.Complete`: counting in complete graphs

A motif without constraints, forbidden edges and self-loops asks nothing of a complete graph
but vertices of its own for its entities (`Bare.placed_complete_iff`). So at every step of the
search the vertices that are tried and taken are, with those that are bound already, all vertices
of the graph (`Bare.perm_range_complete`), whichever edge or row the candidates are drawn from.
The number of extensions follows by induction on the entities still to bind
(`Bare.length_extensions_complete`), and `Motif.count_complete` says that the matches of `k`
entities are counted by the falling factorial `n (n - 1) … (n - k + 1)`.
-/

set_option autoImplicit false

namespace MotifQuery.Motif

/-- A motif of entities and required edges between two of them, without any constraint. -/
structure Bare (m : Motif) : Prop where
  required : ∀ e ∈ m.edges, e.required = true
  unconstrained : ∀ e ∈ m.edges, e.constraints = []
  loopless : ∀ e ∈ m.edges, e.source ≠ e.target
  vertices : ∀ x, m.constraintsOn x = []

variable {m : Motif} {a : Assignment} {x : String} {n v : Nat} {directed : Bool}

/-! ### Partial matches -/

/-- An edge of a bare motif holds between vertices of their own. -/
theorem Bare.edgeHolds (hm : m.Bare) (hentities : (a.map Prod.fst).Nodup)
    (hpositions : (a.map Prod.snd).Nodup) (hrange : ∀ v ∈ a.map Prod.snd, v < n)
    {e : MotifEdge} (he : e ∈ m.edges) :
    Motif.edgeHolds (HostGraph.complete n directed) a e = true := by
  unfold Motif.edgeHolds
  split
  · next s t hs ht =>
    have hs := (lookup_eq_some_iff_mem hentities).1 hs
    have ht := (lookup_eq_some_iff_mem hentities).1 ht
    have hne : s ≠ t := by
      rintro rfl
      exact hm.loopless e he (congrArg Prod.fst (List.inj_on_of_nodup_map hpositions hs ht rfl))
    obtain ⟨f, hf⟩ := HostGraph.exists_edgeBetween?_complete directed
      (hrange s (List.mem_map_of_mem hs)) (hrange t (List.mem_map_of_mem ht)) hne
    rw [hf, Option.any_some, MotifEdge.admits, hm.unconstrained e he, hm.required e he]
    rfl
  · rfl

/-- In a complete graph a bare motif asks only for distinct vertices. -/
theorem Bare.placed_complete_iff (hm : m.Bare) :
    Placed m (HostGraph.complete n directed) a ↔
      (a.map Prod.fst).Nodup ∧ (a.map Prod.snd).Nodup ∧ ∀ v ∈ a.map Prod.snd, v < n := by
  have hvertex : ∀ p : String × Nat,
      ((HostGraph.complete n directed).vertices[p.2]?).any (fun v =>
        (m.constraintsOn p.1).all fun c => c.satisfiedBy v.attributes) = true ↔ p.2 < n := by
    intro p
    have hcount : (HostGraph.complete n directed).vertices.size = n :=
      HostGraph.vertexCount_complete n directed
    simp [hm.vertices, hcount]
  constructor
  · exact fun h => ⟨h.nodup_entities, h.nodup_positions,
      List.forall_mem_map.2 fun p hp => (hvertex p).1 (h.vertices p hp)⟩
  · rintro ⟨hentities, hpositions, hrange⟩
    exact ⟨hentities, hpositions,
      fun p hp => (hvertex p).2 (hrange p.2 (List.mem_map_of_mem hp)),
      fun e he => hm.edgeHolds hentities hpositions hrange he⟩

/-! ### One step -/

/-- Every vertex of a complete graph that is not bound yet is a choice. -/
theorem Bare.mem_choices_complete_iff (hm : m.Bare)
    (ha : Placed m (HostGraph.complete n directed) a) (hx : x ∉ a.map Prod.fst) :
    v ∈ m.choices (HostGraph.complete n directed) a x ↔ v < n ∧ v ∉ a.map Prod.snd := by
  obtain ⟨hentities, hpositions, hrange⟩ := hm.placed_complete_iff.1 ha
  rw [mem_choices_iff (HostGraph.coherent_complete n directed) hx ha, hm.placed_complete_iff,
    List.map_cons, List.map_cons, List.nodup_cons, List.nodup_cons, List.forall_mem_cons]
  constructor
  · rintro ⟨-, ⟨hfree, -⟩, hv, -⟩
    exact ⟨hv, hfree⟩
  · rintro ⟨hv, hfree⟩
    exact ⟨⟨hx, hentities⟩, ⟨hfree, hpositions⟩, hv, hrange⟩

/-- The choices for an entity and the vertices that are bound are all vertices of a complete
graph, each of them once. -/
theorem Bare.perm_range_complete (hm : m.Bare)
    (ha : Placed m (HostGraph.complete n directed) a) (hx : x ∉ a.map Prod.fst) :
    (m.choices (HostGraph.complete n directed) a x ++ a.map Prod.snd).Perm (List.range n) := by
  obtain ⟨-, hpositions, hrange⟩ := hm.placed_complete_iff.1 ha
  have hchoices : (m.choices (HostGraph.complete n directed) a x).Nodup :=
    (ascending_choices (HostGraph.coherent_complete n directed)).imp Nat.ne_of_lt
  have hnodup : (m.choices (HostGraph.complete n directed) a x ++ a.map Prod.snd).Nodup :=
    hchoices.append hpositions fun v hv => ((hm.mem_choices_complete_iff ha hx).1 hv).2
  refine (List.perm_ext_iff_of_nodup hnodup List.nodup_range).2 fun v => ?_
  rw [List.mem_append, hm.mem_choices_complete_iff ha hx, List.mem_range]
  constructor
  · rintro (h | h)
    · exact h.1
    · exact hrange v h
  · intro h
    by_cases hv : v ∈ a.map Prod.snd
    · exact .inr hv
    · exact .inl ⟨h, hv⟩

/-! ### Whole searches -/

/-- Each entity takes one of the vertices that are left. -/
theorem Bare.length_extensions_complete (hm : m.Bare) {rest : List String}
    (ha : Placed m (HostGraph.complete n directed) a)
    (hrest : (rest.reverse ++ a.map Prod.fst).Nodup) :
    (m.extensions (HostGraph.complete n directed) rest a).length
      = (n - a.length).descFactorial rest.length := by
  -- what is bound grows by one at each step, and one vertex fewer is left
  induction rest generalizing a with
  | nil => rw [extensions, List.length_singleton, List.length_nil, Nat.descFactorial_zero]
  | cons x rest ih =>
    rw [List.reverse_cons, List.append_assoc, List.singleton_append] at hrest
    have hx : x ∉ a.map Prod.fst := (List.nodup_cons.1 hrest.of_append_right).1
    have hlength := (hm.perm_range_complete ha hx).length_eq
    rw [List.length_append, List.length_map, List.length_range] at hlength
    have hnext : ∀ v ∈ m.choices (HostGraph.complete n directed) a x,
        (m.extensions (HostGraph.complete n directed) rest ((x, v) :: a)).length
          = (n - a.length - 1).descFactorial rest.length := fun v hv => by
      rw [Nat.sub_sub, ih ((placed_cons_iff hx).2 ⟨ha, (List.mem_filter.1 hv).2⟩) hrest,
        List.length_cons]
    have hchoices : (m.choices (HostGraph.complete n directed) a x).length = n - a.length := by
      omega
    rw [extensions_cons, List.length_flatMap, List.map_congr_left hnext, List.map_const',
      List.sum_replicate_nat, hchoices, List.length_cons]
    -- either no vertex is left, or one of them is taken
    cases n - a.length with
    | zero => rw [Nat.zero_mul, Nat.zero_descFactorial_succ]
    | succ k => rw [Nat.succ_descFactorial_succ, Nat.add_sub_cancel]

/-- A bare motif of `k` entities has `n (n - 1) … (n - k + 1)` matches in the complete graph of
`n` vertices, and so none when there are fewer vertices than entities. -/
theorem count_complete (hparsed : Parsed m) (hm : m.Bare) (n : Nat) (directed : Bool) :
    m.count (HostGraph.complete n directed) = n.descFactorial m.entities.length
      ∧ (n < m.entities.length → m.count (HostGraph.complete n directed) = 0) := by
  have hnodup : (m.searchOrder.reverse ++ ([] : Assignment).map Prod.fst).Nodup := by
    rw [List.map_nil, List.append_nil]
    exact List.nodup_reverse.2 (m.searchOrder_perm.nodup_iff.2 hparsed.wellFormed.nodup_entities)
  have hcount : m.count (HostGraph.complete n directed) = n.descFactorial m.entities.length := by
    rw [count, countExtensions_eq_length, hm.length_extensions_complete placed_nil hnodup,
      List.length_nil, Nat.sub_zero, m.searchOrder_perm.length_eq]
  refine ⟨hcount, fun hlt => ?_⟩
  rw [hcount, Nat.descFactorial_eq_zero_iff_lt.2 hlt]

/-- A directed triangle has `4 * 3 * 2` matches in the complete graph of four vertices, and none
where there are only two. -/
theorem count_complete_of_triangle :
    ∃ m, parse "A -> B\nB -> C\nC -> A" = .ok m ∧ m.count (HostGraph.complete 4 true) = 24
      ∧ m.count (HostGraph.complete 2 false) = 0 := by
  have hparse : parse "A -> B\nB -> C\nC -> A" = .ok (ofStatements [
      .edge ⟨"A", "B", true, []⟩, .edge ⟨"B", "C", true, []⟩, .edge ⟨"C", "A", true, []⟩]) := rfl
  have hcount := count_complete (.motif hparse)
    ⟨by decide, by decide, by decide, fun _ => rfl⟩
  exact ⟨_, hparse, (hcount 4 true).1, (hcount 2 false).2 (by decide)⟩

end MotifQuery.Motif
