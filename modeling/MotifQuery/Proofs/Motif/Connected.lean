import Mathlib.Logic.Relation
import MotifQuery.Proofs.Motif.Matches

/-!
# `MotifQuery.Proofs.Motif.Connected`: the search order is connected

The next entity in the search order is one with the most links to the entities before it, so it
has such a link unless no entity that is left has one (`linked_or_unlinked`). A component of the
motif is therefore finished before the next one begins: the entities before an entity hold every
component whole that the entity is not part of (`mem_of_connected`).

`Motif.Visits` are the calls of the search. In each of them the bound entities are those before
the next one in the search order (`Visits.order`), so the candidates come from all host vertices
where a component begins and from the neighbours of one bound vertex everywhere else
(`Visits.candidates_eq_range`, `Visits.drawsFromBound`).
-/

set_option autoImplicit false

namespace MotifQuery.Motif

variable {m : Motif} {g : HostGraph} {a : Assignment} {x y z : String} {placed : List String}

/-! ### Links -/

/-- A required edge joins the two entities, in either direction. -/
def Linked (m : Motif) (x y : String) : Prop :=
  ∃ e ∈ m.edges, e.required = true ∧
    (e.source = x ∧ e.target = y ∨ e.source = y ∧ e.target = x)

/-- Required edges lead from one entity to the other: they are in one component. -/
def Connected (m : Motif) : String → String → Prop :=
  Relation.ReflTransGen m.Linked

/-- No entity placed before is in the component of the entity. -/
def StartsComponent (m : Motif) (placed : List String) (x : String) : Prop :=
  ∀ y ∈ placed, ¬ m.Connected x y

theorem Linked.symm (h : m.Linked x y) : m.Linked y x := by
  obtain ⟨e, he, hrequired, hends⟩ := h
  exact ⟨e, he, hrequired, hends.symm⟩

theorem Connected.symm (h : m.Connected x y) : m.Connected y x := by
  induction h with
  | refl => exact .refl
  | tail _ hlinked ih => exact .head hlinked.symm ih

theorem Linked.connected (h : m.Linked x y) : m.Connected x y :=
  .single h

/-- The ends of a link are entities. -/
theorem Linked.mem_entities (hm : m.WellFormed) (h : m.Linked x y) : y ∈ m.entities := by
  obtain ⟨e, he, -, ⟨-, rfl⟩ | ⟨rfl, -⟩⟩ := h
  · exact hm.target_mem e he
  · exact hm.source_mem e he

theorem mem_neighbours_iff : y ∈ m.neighbours x ↔ m.Linked x y := by
  rw [neighbours, List.mem_eraseDups, List.mem_flatMap]
  refine exists_congr fun e => ?_
  rw [List.mem_filter, and_assoc, List.mem_append]
  refine and_congr_right fun _ => and_congr_right fun _ => or_congr ?_ ?_
  · split
    · next h => rw [List.mem_singleton, and_iff_right h, eq_comm]
    · next h => exact iff_of_false List.not_mem_nil fun hends => h hends.1
  · split
    · next h => rw [List.mem_singleton, and_iff_left h, eq_comm]
    · next h => exact iff_of_false List.not_mem_nil fun hends => h hends.2

/-! ### The next entity -/

theorem links_pos_iff : 0 < (m.rank placed x).1 ↔ ∃ y ∈ placed, m.Linked x y := by
  rw [rank, List.length_pos_iff_exists_mem]
  refine exists_congr fun y => ?_
  rw [List.mem_filter, mem_neighbours_iff, List.contains_iff_mem, and_comm]

/-- No entity to choose from has more links than the best one. -/
theorem links_le_of_best? {remaining : List String} (h : m.best? placed remaining = some x) :
    ∀ z ∈ remaining, (m.rank placed z).1 ≤ (m.rank placed x).1 := by
  induction remaining generalizing x with
  | nil => cases h
  | cons first rest ih =>
    rw [best?] at h
    split at h
    · next hnone =>
      cases h
      rw [best?_eq_none_iff.1 hnone]
      exact List.forall_mem_singleton.2 (Nat.le_refl _)
    · next other hother =>
      have hrest := ih hother
      split at h <;> cases h
      · next hless =>
        -- a better rank has more links, or as many and more neighbours
        simp only [rankLess, Bool.or_eq_true, Bool.and_eq_true, decide_eq_true_eq,
          beq_iff_eq] at hless
        exact List.forall_mem_cons.2 ⟨by omega, hrest⟩
      · next hless =>
        simp only [rankLess, Bool.or_eq_true, Bool.and_eq_true, decide_eq_true_eq,
          beq_iff_eq] at hless
        exact List.forall_mem_cons.2 ⟨Nat.le_refl _, fun z hz => Nat.le_trans (hrest z hz) (by omega)⟩

/-- Every pick has a link to what was placed before it, unless nothing that is left has one. -/
theorem linked_or_unlinked_orderFrom {n : Nat} {remaining front back : List String}
    (hlength : remaining.length = n)
    (h : m.orderFrom n placed remaining = front ++ x :: back) :
    (∃ y ∈ front ++ placed, m.Linked x y) ∨
      ∀ z ∈ x :: back, ∀ y ∈ front ++ placed, ¬ m.Linked z y := by
  -- by the picks, each of which moves one entity to the placed ones
  induction n generalizing placed remaining front with
  | zero => exact absurd h.symm (List.append_ne_nil_of_right_ne_nil _ (List.cons_ne_nil _ _))
  | succ n ih =>
    have hperm : (m.orderFrom (n + 1) placed remaining).Perm remaining := m.orderFrom_perm hlength
    rw [orderFrom] at h hperm
    cases hbest : m.best? placed remaining with
    | none =>
      rw [hbest] at h
      exact absurd h.symm (List.append_ne_nil_of_right_ne_nil _ (List.cons_ne_nil _ _))
    | some entity =>
      rw [hbest] at h hperm
      dsimp only at h hperm
      cases front with
      | nil =>
        rw [List.nil_append, List.cons.injEq] at h
        obtain ⟨rfl, rfl⟩ := h
        by_cases hlinked : ∃ y ∈ placed, m.Linked entity y
        · exact .inl hlinked
        -- no other entity has a link, as the best one has none
        · refine .inr fun z hz y hy hzy => ?_
          have hbound := links_le_of_best? hbest z (hperm.subset hz)
          have hpos : 0 < (m.rank placed z).1 := links_pos_iff.2 ⟨y, hy, hzy⟩
          exact hlinked (links_pos_iff.1 (Nat.lt_of_lt_of_le hpos hbound))
      | cons first front =>
        rw [List.cons_append, List.cons.injEq] at h
        obtain ⟨rfl, h⟩ := h
        have hlength' : (remaining.erase entity).length = n := by
          rw [List.length_erase_of_mem (mem_of_best? hbest), hlength]
          rfl
        have hmem : ∀ y, y ∈ front ++ entity :: placed ↔ y ∈ entity :: front ++ placed := fun y => by
          simp only [List.cons_append, List.mem_append, List.mem_cons]
          tauto
        simpa only [hmem] using ih hlength' h

/-- Every entity of the search order has a link to an earlier one, unless no entity from there on
has one. -/
theorem linked_or_unlinked {front back : List String} (h : m.searchOrder = front ++ x :: back) :
    (∃ y ∈ front, m.Linked x y) ∨ ∀ z ∈ x :: back, ∀ y ∈ front, ¬ m.Linked z y := by
  have hstep : (∃ y ∈ front ++ [], m.Linked x y) ∨
      ∀ z ∈ x :: back, ∀ y ∈ front ++ [], ¬ m.Linked z y := linked_or_unlinked_orderFrom rfl h
  rwa [List.append_nil] at hstep

/-! ### Components -/

section Components

variable {front back : List String}

/-- An entity stands in the search order once. -/
theorem not_mem_front (hm : m.WellFormed) (h : m.searchOrder = front ++ x :: back)
    (hz : z ∈ x :: back) : z ∉ front := by
  have hnodup := m.searchOrder_perm.nodup_iff.2 hm.nodup_entities
  rw [h] at hnodup
  exact fun hfront => (List.disjoint_of_nodup_append hnodup) hfront hz

/-- Where no entity that is left has a link to an earlier one, no component goes on. -/
theorem mem_of_connected_of_unlinked (hm : m.WellFormed) (h : m.searchOrder = front ++ x :: back)
    (hunlinked : ∀ z ∈ x :: back, ∀ y ∈ front, ¬ m.Linked z y) (hy : y ∈ front)
    (hyz : m.Connected y z) : z ∈ front := by
  -- link by link, and no link leads out of what is placed
  induction hyz with
  | refl => exact hy
  | @tail z w _ hzw ih =>
    have hw : w ∈ m.searchOrder := m.searchOrder_perm.mem_iff.2 (hzw.mem_entities hm)
    rw [h] at hw
    exact (List.mem_append.1 hw).resolve_right fun hback => hunlinked w hback z ih hzw.symm

/-- A component that an entity is not part of is before it as a whole, if it has begun there. -/
theorem mem_of_connected (hm : m.WellFormed) (h : m.searchOrder = front ++ x :: back)
    (hy : y ∈ front) (hxy : ¬ m.Connected x y) (hyz : m.Connected y z) : z ∈ front := by
  -- entity by entity: each goes on with the component of the last one or finds it finished
  induction front using List.reverseRecOn generalizing x y z back with
  | nil => cases hy
  | append_singleton front last ih =>
    rcases linked_or_unlinked h with ⟨w, hw, hxw⟩ | hunlinked
    · have h' : m.searchOrder = front ++ last :: (x :: back) := by
        rw [h, List.append_assoc, List.singleton_append]
      have hx : x ∉ front ++ [last] := not_mem_front hm h List.mem_cons_self
      have hlast : m.Connected x last := by
        rcases List.mem_append.1 hw with hw | hw
        · by_contra hxlast
          have hfinished := ih h' hw (fun hlw => hxlast (hxw.connected.trans hlw.symm))
            hxw.symm.connected
          exact hx (List.mem_append_left _ hfinished)
        · rw [← List.mem_singleton.1 hw]
          exact hxw.connected
      rcases List.mem_append.1 hy with hy | hy
      · exact List.mem_append_left _ (ih h' hy (fun hly => hxy (hlast.trans hly)) hyz)
      · rw [List.mem_singleton.1 hy] at hxy
        exact absurd hlast hxy
    · exact mem_of_connected_of_unlinked hm h hunlinked hy hyz

/-- An entity without a link to an earlier one begins a component. -/
theorem startsComponent_iff (hm : m.WellFormed) (h : m.searchOrder = front ++ x :: back) :
    m.StartsComponent front x ↔ ∀ y ∈ front, ¬ m.Linked x y := by
  refine ⟨fun hstarts y hy hxy => hstarts y hy hxy.connected, fun hunlinked y hy hxy => ?_⟩
  have hnone := (linked_or_unlinked h).resolve_left fun ⟨y, hy, hxy⟩ => hunlinked y hy hxy
  exact not_mem_front hm h List.mem_cons_self
    (mem_of_connected_of_unlinked hm h hnone hy hxy.symm)

/-- Between two entities of one component stand only entities of that component. -/
theorem connected_of_between (hm : m.WellFormed) {between : List String}
    (h : m.searchOrder = front ++ x :: (between ++ z :: back)) (hxz : m.Connected x z)
    (hy : y ∈ between) : m.Connected x y := by
  obtain ⟨before, after, rfl⟩ := List.append_of_mem hy
  have h' : m.searchOrder = (front ++ x :: before) ++ y :: (after ++ z :: back) := by
    rw [h]
    simp only [List.append_assoc, List.cons_append]
  by_contra hxy
  have hx : x ∈ front ++ x :: before := List.mem_append_right _ List.mem_cons_self
  -- the component of `x` would be finished before `y`, and `z` stands behind it
  have hfinished := mem_of_connected hm h' hx (fun hyx => hxy hyx.symm) hxz
  have hz : z ∈ y :: (after ++ z :: back) :=
    List.mem_cons_of_mem _ (List.mem_append_right _ List.mem_cons_self)
  exact not_mem_front hm h' hz hfinished

end Components

/-! ### The calls of the search -/

/-- The calls of the search: the entities still to bind and what is bound. -/
inductive Visits (m : Motif) (g : HostGraph) : List String → Assignment → Prop where
  | start : Visits m g m.searchOrder []
  | bind {x : String} {rest : List String} {a : Assignment} {n : Nat}
      (h : Visits m g (x :: rest) a) (hcandidate : n ∈ m.candidates g a x)
      (hadmissible : m.admissible g a x n = true) : Visits m g rest ((x, n) :: a)

/-- The candidates for an entity are the vertices next to a bound one, along a required edge
between the two entities. -/
def DrawsFromBound (m : Motif) (g : HostGraph) (a : Assignment) (x : String) : Prop :=
  ∃ e ∈ m.edges, e.required = true ∧
    (e.target = x ∧ (∃ k, (e.source, k) ∈ a ∧ m.candidates g a x = g.successors k) ∨
      e.source = x ∧ ∃ k, (e.target, k) ∈ a ∧ m.candidates g a x = g.predecessors k)

variable {rest : List String}

/-- What is bound, then what is still to bind, is the search order. -/
theorem Visits.order (h : m.Visits g rest a) :
    m.searchOrder = (a.map Prod.fst).reverse ++ rest := by
  induction h with
  | start => rfl
  | bind _ _ _ ih =>
    rw [ih, List.map_cons, List.reverse_cons, List.append_assoc, List.singleton_append]

/-- The search gets to everything that it lists. -/
theorem visits_of_mem_extensions (h : m.Visits g rest a) {b : Assignment}
    (hb : b ∈ m.extensions g rest a) : m.Visits g [] b := by
  induction rest generalizing a with
  | nil =>
    rw [List.mem_singleton.1 hb]
    exact h
  | cons x rest ih =>
    rw [extensions_cons] at hb
    obtain ⟨n, hn, hb⟩ := List.mem_flatMap.1 hb
    obtain ⟨hcandidate, hadmissible⟩ := List.mem_filter.1 hn
    exact ih (h.bind hcandidate hadmissible) hb

/-- An edge leads from a bound entity to the next one exactly when it joins the two. -/
theorem isSome_throughEdge?_iff (hx : x ∉ a.map Prod.fst) {e : MotifEdge} :
    (throughEdge? g a x e).isSome = true ↔
      e.target = x ∧ e.source ∈ a.map Prod.fst ∨ e.source = x ∧ e.target ∈ a.map Prod.fst := by
  have hbound : ∀ y, (a.lookup y).isSome = true ↔ y ∈ a.map Prod.fst := fun y => by
    rw [← not_iff_not, ← Option.isNone_iff_eq_none.trans (Option.not_isSome_iff_eq_none).symm]
    rw [Option.isNone_iff_eq_none, lookup_eq_lookupEntry, lookupEntry_eq_none_iff]
  unfold throughEdge?
  split
  · next htarget =>
    rw [Option.isSome_map, hbound, htarget]
    exact ⟨fun h => .inl ⟨rfl, h⟩, fun h => h.elim And.right fun h => absurd h.2 hx⟩
  · next htarget =>
    split
    · next hsource =>
      rw [Option.isSome_map, hbound, hsource]
      exact ⟨fun h => .inr ⟨rfl, h⟩, fun h => h.elim (fun h => absurd h.1 htarget) And.right⟩
    · next hsource =>
      exact iff_of_false (by simp) fun h => h.elim (htarget ·.1) (hsource ·.1)

section Candidates

variable (hm : m.WellFormed) (h : m.Visits g (x :: rest) a)
include hm h

theorem Visits.not_bound : x ∉ a.map Prod.fst := fun hx =>
  not_mem_front hm h.order List.mem_cons_self (List.mem_reverse.2 hx)

/-- A component begins where no required edge leads from a bound entity to the next one. -/
theorem Visits.startsComponent_iff : m.StartsComponent (a.map Prod.fst) x ↔
    (m.edges.filter (·.required)).findSome? (throughEdge? g a x) = none := by
  have hmem : ∀ y, y ∈ (a.map Prod.fst).reverse ↔ y ∈ a.map Prod.fst := fun y => List.mem_reverse
  have hstarts := Motif.startsComponent_iff hm h.order
  simp only [StartsComponent, hmem] at hstarts
  rw [StartsComponent, hstarts, List.findSome?_eq_none_iff]
  have hthrough := fun e => isSome_throughEdge?_iff (g := g) (h.not_bound hm) (e := e)
  constructor
  · intro hunlinked e he
    obtain ⟨he, hrequired⟩ := List.mem_filter.1 he
    rw [← Option.not_isSome_iff_eq_none, hthrough]
    rintro (⟨htarget, hy⟩ | ⟨hsource, hy⟩)
    · exact hunlinked _ hy ⟨e, he, hrequired, .inr ⟨rfl, htarget⟩⟩
    · exact hunlinked _ hy ⟨e, he, hrequired, .inl ⟨hsource, rfl⟩⟩
  · rintro hnone y hy ⟨e, he, hrequired, hends⟩
    have hfree := hnone e (List.mem_filter.2 ⟨he, hrequired⟩)
    rw [← Option.not_isSome_iff_eq_none, hthrough] at hfree
    rcases hends with ⟨hsource, rfl⟩ | ⟨rfl, htarget⟩
    · exact hfree (.inr ⟨hsource, hy⟩)
    · exact hfree (.inl ⟨htarget, hy⟩)

/-- Where a component begins every host vertex is a candidate. -/
theorem Visits.candidates_eq_range (hstarts : m.StartsComponent (a.map Prod.fst) x) :
    m.candidates g a x = List.range g.vertexCount := by
  rw [candidates, (h.startsComponent_iff hm).1 hstarts]

/-- Inside a component the candidates are next to a bound vertex. -/
theorem Visits.drawsFromBound (hstarts : ¬ m.StartsComponent (a.map Prod.fst) x) :
    m.DrawsFromBound g a x := by
  rw [h.startsComponent_iff hm, ← ne_eq, Option.ne_none_iff_exists'] at hstarts
  obtain ⟨near, hnear⟩ := hstarts
  -- some edge leads to a vertex that is bound, and the candidates are its neighbours
  obtain ⟨e, he, hthrough⟩ := List.exists_of_findSome?_eq_some hnear
  obtain ⟨he, hrequired⟩ := List.mem_filter.1 he
  have hcandidates : m.candidates g a x = near := by rw [candidates, hnear]
  have hmem : ∀ {y k}, a.lookup y = some k → (y, k) ∈ a := fun hk => by
    rw [lookup_eq_lookupEntry] at hk
    exact mem_of_lookupEntry hk
  refine ⟨e, he, hrequired, ?_⟩
  unfold throughEdge? at hthrough
  split at hthrough
  · next htarget =>
    obtain ⟨k, hk, rfl⟩ := Option.map_eq_some_iff.1 hthrough
    exact .inl ⟨htarget, k, hmem hk, hcandidates⟩
  · split at hthrough
    · next hsource =>
      obtain ⟨k, hk, rfl⟩ := Option.map_eq_some_iff.1 hthrough
      exact .inr ⟨hsource, k, hmem hk, hcandidates⟩
    · cases hthrough

end Candidates

/-! ### The search order -/

/-- The search order lists every entity once. Each has a link to an earlier one unless no entity
from there on has one, so a component stands in one block, and in every call of the search the
candidates are all host vertices where a component begins, and the vertices next to one bound
vertex everywhere else. -/
theorem searchOrder_connected {m : Motif} (hm : Parsed m) :
    m.searchOrder.Perm m.entities ∧ m.searchOrder.Nodup ∧
      (∀ front x back, m.searchOrder = front ++ x :: back →
        (∃ y ∈ front, m.Linked x y) ∨ ∀ z ∈ x :: back, ∀ y ∈ front, ¬ m.Linked z y) ∧
      (∀ front x between z back, m.searchOrder = front ++ x :: (between ++ z :: back) →
        m.Connected x z → ∀ y ∈ between, m.Connected x y) ∧
      ∀ g, (∀ a ∈ m.extensions g m.searchOrder [], m.Visits g [] a) ∧
        ∀ x rest a, m.Visits g (x :: rest) a →
          m.searchOrder = (a.map Prod.fst).reverse ++ x :: rest ∧
          (m.StartsComponent (a.map Prod.fst) x →
            m.candidates g a x = List.range g.vertexCount) ∧
          (¬ m.StartsComponent (a.map Prod.fst) x → m.DrawsFromBound g a x) := by
  have hm := hm.wellFormed
  refine ⟨m.searchOrder_perm, m.searchOrder_perm.nodup_iff.2 hm.nodup_entities, ?_, ?_, ?_⟩
  · exact fun front x back h => linked_or_unlinked h
  · exact fun front x between z back h hxz y hy => connected_of_between hm h hxz hy
  · intro g
    refine ⟨fun a ha => visits_of_mem_extensions .start ha, fun x rest a h => ?_⟩
    exact ⟨h.order, h.candidates_eq_range hm, h.drawsFromBound hm⟩

/-- A self-loop makes `C` the first entity; then comes its component, and only then the other. -/
theorem searchOrder_connected_of_text :
    ∃ m g, parse "A -> B; C -> C; C -> D; A !> C" = .ok m ∧
      g = HostGraph.ofMentions true [.edge "p" "p" ∅, .edge "p" "q" ∅, .edge "r" "s" ∅] ∧
      m.searchOrder = ["C", "D", "A", "B"] ∧
      (m.Connected "C" "A" → ∀ y ∈ ["D"], m.Connected "C" y) ∧
      m.Visits g ["D", "A", "B"] [("C", 0)] ∧
      (¬ m.StartsComponent ["C"] "D" → m.DrawsFromBound g [("C", 0)] "D") := by
  have hparse : parse "A -> B; C -> C; C -> D; A !> C" = .ok (ofStatements [
    .edge ⟨"A", "B", true, []⟩, .edge ⟨"C", "C", true, []⟩, .edge ⟨"C", "D", true, []⟩,
    .edge ⟨"A", "C", false, []⟩]) := rfl
  obtain ⟨-, -, -, hblock, hsearch⟩ := searchOrder_connected (.motif hparse)
  have hvisits := Visits.bind (n := 0) (Visits.start (m := ofStatements [
    .edge ⟨"A", "B", true, []⟩, .edge ⟨"C", "C", true, []⟩, .edge ⟨"C", "D", true, []⟩,
    .edge ⟨"A", "C", false, []⟩]) (g := HostGraph.ofMentions true [
      .edge "p" "p" ∅, .edge "p" "q" ∅, .edge "r" "s" ∅])) (by decide) (by decide)
  exact ⟨_, _, hparse, rfl, rfl, hblock [] "C" ["D"] "A" ["B"] rfl, hvisits,
    ((hsearch _).2 "D" ["A", "B"] [("C", 0)] hvisits).2.2⟩

end MotifQuery.Motif
