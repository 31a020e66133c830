import Mathlib.Data.List.Nodup
import MotifQuery.Motif.Search
import MotifQuery.Proofs.Dict
import MotifQuery.Proofs.Graph.Coherent

/-!
# `MotifQuery.Proofs.Motif.Placement`: partial matches

`Motif.Placed` is the invariant of the search: the bound entities are distinct and stand at
distinct vertices, every bound vertex satisfies the constraints of its entity, and every
edge between bound entities holds.

* `Motif.placed_cons_iff`: one more entity may be bound exactly when `admissible` says so.
* `Motif.mem_candidates`: every vertex that an entity may be bound to is a candidate, so that
  the `Motif.choices` at a step are exactly these (`Motif.mem_choices_iff`).
* `Motif.mem_extensions_iff`: the search lists exactly the partial matches that bind the
  entities still to bind.
* `Motif.ascending_extensions`: it lists them in the lexicographic order of the positions
  bound, and so by `Motif.nodup_extensions` each of them once.
-/

set_option autoImplicit false

namespace MotifQuery

/-! ### Looking up what is bound -/

/-- Binding an entity changes the look-up at that entity only. -/
theorem lookup_bind (x y : String) (n : Nat) (a : Assignment) :
    List.lookup y ((x, n) :: a) = if y = x then some n else List.lookup y a := by
  rw [lookup_eq_lookupEntry, lookup_eq_lookupEntry]
  rfl

/-- An entity that is not bound has no position. -/
theorem lookup_eq_none_of_not_mem {x : String} {a : Assignment} (h : x ∉ a.map Prod.fst) :
    List.lookup x a = none := by
  rw [lookup_eq_lookupEntry, lookupEntry_eq_none_iff.2 h]

namespace Motif

/-- The invariant of the search. -/
structure Placed (m : Motif) (g : HostGraph) (a : Assignment) : Prop where
  nodup_entities : (a.map Prod.fst).Nodup
  nodup_positions : (a.map Prod.snd).Nodup
  vertices : ∀ p ∈ a, (g.vertices[p.2]?).any (fun v =>
    (m.constraintsOn p.1).all fun c => c.satisfiedBy v.attributes) = true
  edges : ∀ e ∈ m.edges, edgeHolds g a e = true

variable {m : Motif} {g : HostGraph} {a : Assignment} {x : String} {n : Nat}

theorem placed_nil : Placed m g [] where
  nodup_entities := List.nodup_nil
  nodup_positions := List.nodup_nil
  vertices _ hp := nomatch hp
  edges _ _ := rfl

/-! ### One step -/

/-- Binding an entity does not count for an edge that does not touch it. -/
theorem edgeHolds_bind_of_not_touches {e : MotifEdge} (h : e.touches x = false) :
    edgeHolds g ((x, n) :: a) e = edgeHolds g a e := by
  simp only [MotifEdge.touches, Bool.or_eq_false_iff, beq_eq_false_iff_ne] at h
  simp only [edgeHolds, lookup_bind, if_neg h.1, if_neg h.2]

/-- An edge with a free end holds so far. -/
theorem edgeHolds_of_touches {e : MotifEdge} (hx : x ∉ a.map Prod.fst)
    (h : e.touches x = true) : edgeHolds g a e = true := by
  simp only [MotifEdge.touches, Bool.or_eq_true, beq_iff_eq] at h
  unfold edgeHolds
  rcases h with h | h
  · rw [h, lookup_eq_none_of_not_mem hx]
  · rw [h, lookup_eq_none_of_not_mem hx]
    split
    · next heq => cases heq
    · rfl

/-- One more entity may be bound exactly when `admissible` says so. -/
theorem placed_cons_iff (hx : x ∉ a.map Prod.fst) :
    Placed m g ((x, n) :: a) ↔ Placed m g a ∧ m.admissible g a x n = true := by
  have hfree : (!a.any fun bound => bound.2 == n) = true ↔ n ∉ a.map Prod.snd := by
    rw [Bool.not_eq_true', List.any_eq_false]
    refine ⟨fun h hmem => ?_, fun h p hp heq => h (List.mem_map.2 ⟨p, hp, beq_iff_eq.1 heq⟩)⟩
    obtain ⟨p, hp, rfl⟩ := List.mem_map.1 hmem
    exact h p hp (beq_self_eq_true _)
  -- an edge that does not touch the new entity held before, any other had a free end
  have hedges : (∀ e ∈ m.edges, edgeHolds g ((x, n) :: a) e = true)
      ↔ (∀ e ∈ m.edges, edgeHolds g a e = true) ∧
        ∀ e ∈ m.edges, (!e.touches x || edgeHolds g ((x, n) :: a) e) = true := by
    refine Iff.trans (forall₂_congr fun e _ => ?_) forall₂_and
    cases ht : e.touches x with
    | false => simp [edgeHolds_bind_of_not_touches ht]
    | true => simp [edgeHolds_of_touches hx ht]
  unfold admissible
  rw [Bool.and_eq_true, Bool.and_eq_true, hfree, List.all_eq_true]
  constructor
  · intro h
    obtain ⟨-, hentities⟩ := List.nodup_cons.1 h.nodup_entities
    obtain ⟨hn, hpositions⟩ := List.nodup_cons.1 h.nodup_positions
    obtain ⟨hold, hnew⟩ := hedges.1 h.edges
    refine ⟨⟨hentities, hpositions, ?_, hold⟩, ⟨hn, ?_⟩, hnew⟩
    · exact fun p hp => h.vertices p (List.mem_cons_of_mem _ hp)
    · exact h.vertices (x, n) List.mem_cons_self
  · rintro ⟨h, ⟨hn, hvertex⟩, hnew⟩
    refine ⟨List.nodup_cons.2 ⟨hx, h.nodup_entities⟩, List.nodup_cons.2 ⟨hn, h.nodup_positions⟩,
      ?_, hedges.2 ⟨h.edges, hnew⟩⟩
    exact List.forall_mem_cons.2 ⟨hvertex, h.vertices⟩

/-- A required edge between bound entities is in the host. -/
theorem Placed.exists_edgeBetween? (h : Placed m g a) {e : MotifEdge} (he : e ∈ m.edges)
    (hrequired : e.required = true) {s t : Nat} (hs : List.lookup e.source a = some s)
    (ht : List.lookup e.target a = some t) : ∃ f, g.edgeBetween? s t = some f := by
  have hholds := h.edges e he
  simp only [edgeHolds, hs, ht, hrequired, beq_true] at hholds
  cases hf : g.edgeBetween? s t with
  | none =>
    rw [hf] at hholds
    cases hholds
  | some f => exact ⟨f, rfl⟩

/-- Every vertex that an entity may be bound to is a candidate for it. -/
theorem mem_candidates (hg : g.Coherent) (hx : x ∉ a.map Prod.fst)
    (h : Placed m g ((x, n) :: a)) : n ∈ m.candidates g a x := by
  unfold candidates
  split
  · next near hnear =>
    obtain ⟨e, he, hthrough⟩ := List.exists_of_findSome?_eq_some hnear
    obtain ⟨he, hrequired⟩ := List.mem_filter.1 he
    have hnone := lookup_eq_none_of_not_mem hx
    have hleads : ∀ s t, List.lookup e.source ((x, n) :: a) = some s →
        List.lookup e.target ((x, n) :: a) = some t → ∃ p ∈ g.ends, g.Leads p s t := by
      intro s t hs ht
      obtain ⟨f, hf⟩ := h.exists_edgeBetween? he hrequired hs ht
      obtain ⟨hmem, hleads⟩ := hg.edgeBetween?_eq_some_iff.1 hf
      exact ⟨f.ends, List.mem_map_of_mem hmem.val, hleads⟩
    -- the neighbour is bound to one end of a required edge, the entity to the other
    unfold throughEdge? at hthrough
    split at hthrough
    · next htarget =>
      obtain ⟨s, hs, rfl⟩ := Option.map_eq_some_iff.1 hthrough
      have hne : e.source ≠ x := fun heq => by
        rw [heq, hnone] at hs
        cases hs
      refine (hg.successors_iff s n).2 (hleads s n ?_ ?_)
      · rw [lookup_bind, if_neg hne, hs]
      · rw [lookup_bind, if_pos htarget]
    · next htarget =>
      split at hthrough
      · next hsource =>
        obtain ⟨t, ht, rfl⟩ := Option.map_eq_some_iff.1 hthrough
        refine (hg.predecessors_iff n t).2 (hleads n t ?_ ?_)
        · rw [lookup_bind, if_pos hsource]
        · rw [lookup_bind, if_neg htarget, ht]
      · cases hthrough
  -- without a bound neighbour every vertex is a candidate
  · have hvertex := h.vertices (x, n) List.mem_cons_self
    rw [List.mem_range]
    by_contra hge
    rw [Array.getElem?_eq_none (Nat.not_lt.1 hge)] at hvertex
    cases hvertex

/-- The candidates are tried in the order of the host, so none of them twice. -/
theorem ascending_candidates (hg : g.Coherent) : (m.candidates g a x).Pairwise (· < ·) := by
  unfold candidates
  split
  · next near hnear =>
    obtain ⟨e, -, hthrough⟩ := List.exists_of_findSome?_eq_some hnear
    unfold throughEdge? at hthrough
    split at hthrough
    · obtain ⟨s, -, rfl⟩ := Option.map_eq_some_iff.1 hthrough
      exact hg.successors_ascending s
    · split at hthrough
      · obtain ⟨t, -, rfl⟩ := Option.map_eq_some_iff.1 hthrough
        exact hg.predecessors_ascending t
      · cases hthrough
  · exact List.pairwise_lt_range

/-- The vertices that an entity is bound to after the others, in the order of the host. -/
def choices (m : Motif) (g : HostGraph) (a : Assignment) (x : String) : List Nat :=
  (m.candidates g a x).filter (m.admissible g a x)

/-- The choices are the vertices that the entity may be bound to. -/
theorem mem_choices_iff (hg : g.Coherent) (hx : x ∉ a.map Prod.fst) (ha : Placed m g a) :
    n ∈ m.choices g a x ↔ Placed m g ((x, n) :: a) := by
  rw [choices, List.mem_filter]
  constructor
  · exact fun h => (placed_cons_iff hx).2 ⟨ha, h.2⟩
  · exact fun h => ⟨mem_candidates hg hx h, ((placed_cons_iff hx).1 h).2⟩

theorem ascending_choices (hg : g.Coherent) : (m.choices g a x).Pairwise (· < ·) :=
  (ascending_candidates hg).filter _

/-- The search goes on with every choice. -/
theorem extensions_cons (m : Motif) (g : HostGraph) (rest : List String) (a : Assignment)
    (x : String) : m.extensions g (x :: rest) a
      = (m.choices g a x).flatMap fun n => m.extensions g rest ((x, n) :: a) := by
  rw [extensions, choices]
  induction m.candidates g a x with
  | nil => rfl
  | cons n ns ih =>
    rw [List.flatMap_cons, ih, List.filter_cons]
    split
    · rw [List.flatMap_cons]
    · rw [List.nil_append]

/-! ### Whole searches -/

/-- A part of a partial match is one. -/
theorem Placed.suffix {b : Assignment} (h : Placed m g b) (hab : a <:+ b) : Placed m g a := by
  induction b with
  | nil => rwa [List.suffix_nil.1 hab]
  | cons p rest ih =>
    rcases List.suffix_cons_iff.1 hab with rfl | hab
    · exact h
    · have hp : p.1 ∉ rest.map Prod.fst := (List.nodup_cons.1 h.nodup_entities).1
      exact ih ((placed_cons_iff (n := p.2) hp).1 h).1 hab

/-- A search only adds to what is bound. -/
theorem suffix_of_mem_extensions {rest : List String} {b : Assignment}
    (h : b ∈ m.extensions g rest a) : a <:+ b := by
  induction rest generalizing a with
  | nil =>
    obtain rfl := List.mem_singleton.1 h
    exact List.suffix_refl b
  | cons x rest ih =>
    rw [extensions_cons] at h
    obtain ⟨n, -, h⟩ := List.mem_flatMap.1 h
    exact (List.suffix_cons _ _).trans (ih h)

/-- A search binds the entities that it is given. -/
theorem keys_of_mem_extensions {rest : List String} {b : Assignment}
    (h : b ∈ m.extensions g rest a) : b.map Prod.fst = rest.reverse ++ a.map Prod.fst := by
  induction rest generalizing a with
  | nil =>
    obtain rfl := List.mem_singleton.1 h
    rfl
  | cons x rest ih =>
    rw [extensions_cons] at h
    obtain ⟨n, -, h⟩ := List.mem_flatMap.1 h
    rw [List.reverse_cons, List.append_assoc]
    exact ih h

/-- It binds each of them to a vertex of the host that satisfies the constraints on it. -/
theorem satisfied_of_mem_extensions {rest : List String} {b : Assignment}
    (h : b ∈ m.extensions g rest a) :
    ∀ bound ∈ b, bound ∈ a ∨ ∃ v, g.vertices[bound.2]? = some v ∧
      ∀ c ∈ m.constraintsOn bound.1, c.satisfiedBy v.attributes = true := by
  induction rest generalizing a with
  | nil =>
    obtain rfl := List.mem_singleton.1 h
    exact fun bound hbound => .inl hbound
  | cons x rest ih =>
    rw [extensions_cons] at h
    obtain ⟨n, hn, h⟩ := List.mem_flatMap.1 h
    intro bound hbound
    rcases ih h bound hbound with hmem | hvertex
    · rcases List.mem_cons.1 hmem with rfl | hmem
      · have hadmissible := (List.mem_filter.1 hn).2
        unfold admissible at hadmissible
        rw [Bool.and_eq_true, Bool.and_eq_true, Option.any_eq_true] at hadmissible
        obtain ⟨v, hv, hsatisfied⟩ := hadmissible.1.2
        exact .inr ⟨v, hv, List.all_eq_true.1 hsatisfied⟩
      · exact .inl hmem
    · exact .inr hvertex

/-- The search lists exactly the partial matches that bind, after the bound entities, the
ones still to bind. -/
theorem mem_extensions_iff (hg : g.Coherent) {rest : List String} {b : Assignment}
    (ha : Placed m g a) (hrest : (rest.reverse ++ a.map Prod.fst).Nodup) :
    b ∈ m.extensions g rest a
      ↔ Placed m g b ∧ a <:+ b ∧ b.map Prod.fst = rest.reverse ++ a.map Prod.fst := by
  -- each step moves one entity from `rest` to the bound ones
  induction rest generalizing a with
  | nil =>
    rw [extensions, List.mem_singleton]
    constructor
    · rintro rfl
      exact ⟨ha, List.suffix_refl b, rfl⟩
    · rintro ⟨-, hab, hkeys⟩
      have hlength := congrArg List.length hkeys
      simp only [List.reverse_nil, List.nil_append, List.length_map] at hlength
      exact (hab.eq_of_length hlength.symm).symm
  | cons x rest ih =>
    rw [List.reverse_cons, List.append_assoc, List.singleton_append] at hrest ⊢
    have hx : x ∉ a.map Prod.fst := (List.nodup_cons.1 hrest.of_append_right).1
    rw [extensions_cons, List.mem_flatMap]
    constructor
    · rintro ⟨n, hn, hb⟩
      have hn := (mem_choices_iff hg hx ha).1 hn
      obtain ⟨hplaced, hab, hkeys⟩ := (ih hn hrest).1 hb
      exact ⟨hplaced, (List.suffix_cons _ _).trans hab, hkeys⟩
    · rintro ⟨hplaced, ⟨front, rfl⟩, hkeys⟩
      -- the entity bound next stands right before what was bound already
      have hfront : front.map Prod.fst = rest.reverse ++ [x] := by
        rw [List.map_append, ← List.singleton_append, ← List.append_assoc] at hkeys
        exact List.append_cancel_right hkeys
      obtain ⟨front, last, rfl, hfront, hlast⟩ := List.map_eq_append_iff.1 hfront
      obtain ⟨⟨x', n⟩, rfl, rfl⟩ := List.map_eq_singleton_iff.1 hlast
      have heq : front ++ [(x', n)] ++ a = front ++ (x', n) :: a :=
        (List.append_cons front (x', n) a).symm
      rw [heq] at ih hplaced hkeys ⊢
      have hn := hplaced.suffix (List.suffix_append front _)
      refine ⟨n, (mem_choices_iff hg hx ha).2 hn, ?_⟩
      exact (ih hn hrest).2 ⟨hplaced, List.suffix_append front _, hkeys⟩

/-- The positions of an assignment in the order in which they were bound. -/
def trail (a : Assignment) : List Nat :=
  a.reverse.map Prod.snd

/-- What a search adds comes after what was bound. -/
theorem trail_append_cons (front : Assignment) (p : String × Nat) (a : Assignment) :
    trail (front ++ p :: a) = trail a ++ p.2 :: trail front := by
  simp only [trail, List.reverse_append, List.reverse_cons, List.append_assoc,
    List.singleton_append, List.map_append, List.map_cons]

/-- The search lists the assignments in the lexicographic order of their positions. -/
theorem ascending_extensions (hg : g.Coherent) (rest : List String) :
    (m.extensions g rest a).Pairwise fun b c => trail b < trail c := by
  -- what is bound is a common beginning, and the candidate bound next decides
  induction rest generalizing a with
  | nil => exact List.pairwise_singleton _ a
  | cons x rest ih =>
    rw [extensions_cons, List.pairwise_flatMap]
    refine ⟨fun n _ => ih, (ascending_choices hg).imp fun {n k} hlt b hb c hc => ?_⟩
    obtain ⟨front, rfl⟩ := suffix_of_mem_extensions hb
    obtain ⟨front', rfl⟩ := suffix_of_mem_extensions hc
    rw [trail_append_cons, trail_append_cons]
    exact List.append_left_lt (List.cons_lt_cons_iff.2 (.inl hlt))

/-- The search lists nothing twice. -/
theorem nodup_extensions (hg : g.Coherent) (rest : List String) :
    (m.extensions g rest a).Nodup := by
  refine (ascending_extensions hg rest).imp fun hlt heq => ?_
  rw [heq] at hlt
  exact List.lt_irrefl _ hlt

/-- Counting without listing gives the length of the list. -/
theorem countExtensions_eq_length (rest : List String) :
    m.countExtensions g rest a = (m.extensions g rest a).length := by
  induction rest generalizing a with
  | nil => rfl
  | cons x rest ih =>
    rw [countExtensions, extensions]
    simp only [ih]
    -- the count is carried along while the lists are joined
    suffices h : ∀ (ns : List Nat) (total : Nat),
        ns.foldl (fun total n =>
            if m.admissible g a x n = true then
              total + (m.extensions g rest ((x, n) :: a)).length
            else total) total
          = total + (ns.flatMap fun n =>
              if m.admissible g a x n = true then m.extensions g rest ((x, n) :: a)
              else []).length by
      rw [h, Nat.zero_add]
    intro ns
    induction ns with
    | nil => exact fun total => rfl
    | cons n ns ihns =>
      intro total
      rw [List.foldl_cons, ihns, List.flatMap_cons, List.length_append, ← Nat.add_assoc]
      split <;> rfl

end Motif

end MotifQuery
