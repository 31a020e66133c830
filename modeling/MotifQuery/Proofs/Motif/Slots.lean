import MotifQuery.Proofs.Motif.Matches

/-!
# `MotifQuery.Proofs.Motif.Slots`: the search in numbered slots

A search may keep what it has bound in slots, one for each entity in the order of the motif, and
look the ends of an edge up by the slots of their names. What is the slot of a name that is no
entity? The search here is told by a function `slotOf`, and when that gives no slot, or one that is
not there, nothing comes of the whole search. With `slot?` every look-up of a name that is no entity
ends the search, with `slotOr fallback` it goes on at the slot `fallback`.

`findInSlots_eq`: as a well-formed motif names nothing but entities, all these searches are the
same, and are the search by names. So no look-up fails, and the fallback is never taken.
-/

set_option autoImplicit false

namespace MotifQuery.Motif

/-- The positions of the host vertices that the entities are bound to, in their order. -/
abbrev Slots := List (Option Nat)

/-- The slot of an entity. -/
def slot? (m : Motif) (name : String) : Option Nat :=
  m.entities.idxOf? name

/-- The slot of an entity, and `fallback` for a name that is no entity. -/
def slotOr (m : Motif) (fallback : Nat) (name : String) : Option Nat :=
  some ((m.slot? name).getD fallback)

/-! ### The search -/

section Search

variable (slotOf : String → Option Nat) (m : Motif) (g : HostGraph) (slots : Slots)

/-- What is in the slot of a name, if it has one. -/
def held (name : String) : Option (Option Nat) :=
  (slotOf name).bind fun i => slots[i]?

/-- `throughEdge?` with the bound end in a slot. -/
def throughSlot (entity : String) (e : MotifEdge) : Option (Option (List Nat)) :=
  if e.target = entity then (held slotOf slots e.source).map (·.map g.successors)
  else if e.source = entity then (held slotOf slots e.target).map (·.map g.predecessors)
  else some none

/-- The host vertices to try for an entity. -/
def slotCandidates (entity : String) : Option (List Nat) :=
  ((m.edges.filter (·.required)).findSomeM? (throughSlot slotOf g slots entity)).map
    (·.getD (List.range g.vertexCount))

/-- The position of an end of an edge, when `entity` is to be bound to the vertex at `n`. -/
def slotEnd (entity : String) (n : Nat) (name : String) : Option (Option Nat) :=
  if name = entity then some (some n) else held slotOf slots name

/-- Is the edge present as required or absent as forbidden, if it touches the entity and both its
ends are bound? -/
def slotEdgeHolds (entity : String) (n : Nat) (e : MotifEdge) : Option Bool :=
  if e.touches entity then do
    let s ← slotEnd slotOf slots entity n e.source
    let t ← slotEnd slotOf slots entity n e.target
    match s, t with
    | some s, some t =>
      pure (((g.edgeBetween? s t).any fun he => e.admits he.attributes) == e.required)
    | _, _ => pure true
  else some true

/-- May the entity be bound to the host vertex at a position? -/
def slotAdmissible (entity : String) (n : Nat) : Option Bool :=
  if slots.contains (some n) then some false
  else if (g.vertices[n]?).any fun v =>
      (m.constraintsOn entity).all fun c => c.satisfiedBy v.attributes then
    m.edges.allM (slotEdgeHolds slotOf g slots entity n)
  else some false

/-- The ways to fill the slots that are still to fill. -/
def slotExtensions : List Nat → Slots → Option (List Slots)
  | [], slots => some [slots]
  | i :: rest, slots => do
    let entity ← m.entities[i]?
    let candidates ← slotCandidates slotOf m g slots entity
    let found ← candidates.mapM fun n => do
      if ← slotAdmissible slotOf m g slots entity n then
        slotExtensions rest (slots.set i (some n))
      else pure []
    pure found.flatten

/-- The match of filled slots. -/
def slotMatch : Match :=
  Dict.ofList ((m.entities.zip slots).filterMap fun (entity, position) =>
    (position.bind (g.vertices[·]?)).map fun v => (entity, v.id))

/-- All matches in the order of the search, unless a look-up fails. -/
def findInSlots : Option (List Match) :=
  (slotExtensions slotOf m g (m.searchOrder.map m.entities.idxOf)
    (List.replicate m.entities.length none)).map (·.map (slotMatch m g))

end Search

/-! ### Look-ups that do not fail -/

section Rows

variable {α β : Type} {xs : List α}

theorem findSomeM?_eq_some {f : α → Option (Option β)} {f' : α → Option β}
    (h : ∀ x ∈ xs, f x = some (f' x)) : xs.findSomeM? f = some (xs.findSome? f') := by
  induction xs with
  | nil => rfl
  | cons x xs ih =>
    obtain ⟨hx, hxs⟩ := List.forall_mem_cons.1 h
    rw [List.findSomeM?_cons, hx, List.findSome?_cons]
    cases f' x with
    | none => exact ih hxs
    | some y => rfl

theorem allM_eq_some {f : α → Option Bool} {p : α → Bool} (h : ∀ x ∈ xs, f x = some (p x)) :
    xs.allM f = some (xs.all p) := by
  induction xs with
  | nil => rfl
  | cons x xs ih =>
    obtain ⟨hx, hxs⟩ := List.forall_mem_cons.1 h
    rw [List.allM_cons, hx, List.all_cons]
    cases p x with
    | false => rfl
    | true => exact ih hxs

theorem mapM_eq_some {f : α → Option β} {f' : α → β} (h : ∀ x ∈ xs, f x = some (f' x)) :
    xs.mapM f = some (xs.map f') := by
  induction xs with
  | nil => rfl
  | cons x xs ih =>
    obtain ⟨hx, hxs⟩ := List.forall_mem_cons.1 h
    rw [List.mapM_cons, hx, ih hxs]
    rfl

end Rows

/-! ### Slots and names -/

/-- The slots of an assignment. -/
def slotsOf (m : Motif) (a : Assignment) : Slots :=
  m.entities.map fun x => List.lookup x a

/-- The function gives every entity its slot, whatever it gives other names. -/
def Locates (slotOf : String → Option Nat) (m : Motif) : Prop :=
  ∀ x ∈ m.entities, slotOf x = m.slot? x

variable {slotOf : String → Option Nat} {m : Motif} {g : HostGraph} {a : Assignment} {x : String}
  {n : Nat}

theorem slot?_of_mem (hx : x ∈ m.entities) : m.slot? x = some (m.entities.idxOf x) := by
  obtain ⟨i, hi⟩ := Option.isSome_iff_exists.1 (List.isSome_idxOf?.2 hx)
  rw [List.idxOf_eq_getD_idxOf?, slot?, hi, Option.getD_some]

theorem locates_slot? (m : Motif) : Locates m.slot? m :=
  fun _ _ => rfl

/-- An entity is where it is whatever the fallback. -/
theorem locates_slotOr (m : Motif) (fallback : Nat) : Locates (m.slotOr fallback) m := by
  intro x hx
  rw [slotOr, slot?_of_mem hx]
  rfl

theorem held_slotsOf (hslots : Locates slotOf m) (hx : x ∈ m.entities) :
    held slotOf (m.slotsOf a) x = some (List.lookup x a) := by
  rw [held, hslots x hx, slot?_of_mem hx, Option.bind_some, slotsOf, List.getElem?_map,
    List.getElem?_idxOf hx]
  rfl

theorem slotCandidates_eq (hm : m.WellFormed) (hslots : Locates slotOf m) :
    slotCandidates slotOf m g (m.slotsOf a) x = some (m.candidates g a x) := by
  -- the first edge that leads somewhere is the same, as every look-up before it succeeds
  have hthrough : ∀ e ∈ m.edges.filter (·.required),
      throughSlot slotOf g (m.slotsOf a) x e = some (throughEdge? g a x e) := by
    intro e he
    have hmem := (List.mem_filter.1 he).1
    rw [throughSlot, throughEdge?, held_slotsOf hslots (hm.source_mem e hmem),
      held_slotsOf hslots (hm.target_mem e hmem), apply_ite some, apply_ite some]
    rfl
  rw [slotCandidates, findSomeM?_eq_some hthrough, candidates, Option.map_some]
  cases (m.edges.filter (·.required)).findSome? (throughEdge? g a x) <;> rfl

theorem slotEnd_eq (hslots : Locates slotOf m) {y : String} (hy : y ∈ m.entities) :
    slotEnd slotOf (m.slotsOf a) x n y = some (List.lookup y ((x, n) :: a)) := by
  rw [slotEnd, held_slotsOf hslots hy, lookup_bind, apply_ite some]

theorem slotEdgeHolds_eq (hm : m.WellFormed) (hslots : Locates slotOf m) {e : MotifEdge}
    (he : e ∈ m.edges) :
    slotEdgeHolds slotOf g (m.slotsOf a) x n e
      = some (!e.touches x || edgeHolds g ((x, n) :: a) e) := by
  rw [slotEdgeHolds, slotEnd_eq hslots (hm.source_mem e he), slotEnd_eq hslots (hm.target_mem e he)]
  unfold edgeHolds
  cases e.touches x with
  | false => rfl
  | true =>
    cases List.lookup e.source ((x, n) :: a) <;> cases List.lookup e.target ((x, n) :: a) <;> rfl

/-- A position is in a slot when an entity is bound to it. -/
theorem contains_slotsOf (hkeys : (a.map Prod.fst).Nodup)
    (hsub : ∀ y ∈ a.map Prod.fst, y ∈ m.entities) :
    (m.slotsOf a).contains (some n) = a.any fun bound => bound.2 == n := by
  rw [Bool.eq_iff_iff, List.contains_iff_mem, List.any_eq_true, slotsOf, List.mem_map]
  simp only [lookup_eq_some_iff_mem hkeys, beq_iff_eq]
  constructor
  · rintro ⟨y, -, hy⟩
    exact ⟨(y, n), hy, rfl⟩
  · rintro ⟨⟨y, k⟩, hy, rfl⟩
    exact ⟨y, hsub y (List.mem_map_of_mem hy), hy⟩

theorem slotAdmissible_eq (hm : m.WellFormed) (hslots : Locates slotOf m)
    (hkeys : (a.map Prod.fst).Nodup) (hsub : ∀ y ∈ a.map Prod.fst, y ∈ m.entities) :
    slotAdmissible slotOf m g (m.slotsOf a) x n = some (m.admissible g a x n) := by
  rw [slotAdmissible, admissible, contains_slotsOf hkeys hsub,
    allM_eq_some fun e he => slotEdgeHolds_eq hm hslots he]
  cases a.any fun bound => bound.2 == n with
  | true => rfl
  | false =>
    cases (g.vertices[n]?).any fun v => (m.constraintsOn x).all fun c => c.satisfiedBy v.attributes
      <;> rfl

/-- Binding an entity fills its slot. -/
theorem set_slotsOf (hm : m.WellFormed) (hx : x ∈ m.entities) :
    (m.slotsOf a).set (m.entities.idxOf x) (some n) = m.slotsOf ((x, n) :: a) := by
  have hset := hm.nodup_entities.map_update (fun y => List.lookup y a) x (some n)
  rw [if_pos hx] at hset
  rw [slotsOf, ← hset, slotsOf]
  refine congrArg (List.map · m.entities) (funext fun y => ?_)
  rw [Function.update_apply, lookup_bind]

theorem slotExtensions_eq (hm : m.WellFormed) (hslots : Locates slotOf m) {rest : List String}
    (hnodup : (rest.reverse ++ a.map Prod.fst).Nodup)
    (hsub : ∀ y ∈ rest.reverse ++ a.map Prod.fst, y ∈ m.entities) :
    slotExtensions slotOf m g (rest.map m.entities.idxOf) (m.slotsOf a)
      = some ((m.extensions g rest a).map m.slotsOf) := by
  induction rest generalizing a with
  | nil => rfl
  | cons x rest ih =>
    rw [List.reverse_cons, List.append_assoc, List.singleton_append] at hnodup hsub
    have hx : x ∈ m.entities := hsub x (List.mem_append_right _ List.mem_cons_self)
    have hkeys : (a.map Prod.fst).Nodup := (List.nodup_cons.1 hnodup.of_append_right).2
    have hbound : ∀ y ∈ a.map Prod.fst, y ∈ m.entities := fun y hy =>
      hsub y (List.mem_append_right _ (List.mem_cons_of_mem _ hy))
    -- binding the next entity leads to the same slots, so the rest is searched alike
    have hstep : ∀ n ∈ m.candidates g a x, (do
          if ← slotAdmissible slotOf m g (m.slotsOf a) x n then
            slotExtensions slotOf m g (rest.map m.entities.idxOf)
              ((m.slotsOf a).set (m.entities.idxOf x) (some n))
          else pure [])
        = some ((if m.admissible g a x n then m.extensions g rest ((x, n) :: a) else []).map
            m.slotsOf) := fun n _ => by
      have hnext := @ih ((x, n) :: a) hnodup hsub
      rw [slotAdmissible_eq hm hslots hkeys hbound, set_slotsOf hm hx]
      cases m.admissible g a x n with
      | false => rfl
      | true => exact hnext
    rw [List.map_cons, slotExtensions, List.getElem?_idxOf hx, Option.bind_eq_bind,
      Option.bind_some, slotCandidates_eq hm hslots, Option.bind_eq_bind, Option.bind_some,
      Option.bind_eq_bind, mapM_eq_some hstep, Option.bind_some, extensions, List.map_flatMap]
    rfl

/-- The match of filled slots names what is in them. -/
theorem slotMatch_slotsOf (hm : m.WellFormed) (hkeys : (a.map Prod.fst).Nodup)
    (hsub : ∀ y ∈ a.map Prod.fst, y ∈ m.entities) :
    slotMatch m g (m.slotsOf a) = toMatch g a := by
  have hslots : ((m.entities.map fun y => (y, List.lookup y a)).map Prod.fst).Nodup := by
    rw [List.map_map]
    exact (List.map_id m.entities).symm ▸ hm.nodup_entities
  -- an entity that is not bound has an empty slot, and is named in neither match
  refine Dict.ext_get? fun y => Option.ext fun id => ?_
  rw [get?_toMatch_eq_some_iff hkeys, slotMatch, slotsOf, ← List.map_prod_left_eq_zip]
  refine (Dict.get?_ofList_filterMap_eq_some_iff
    (f := fun position => position.bind (g.vertices[·]?)) (k := Vertex.id) hslots).trans ?_
  simp only [List.mem_map, Prod.mk.injEq, Option.bind_eq_some_iff]
  constructor
  · rintro ⟨_, ⟨y, hy, rfl, rfl⟩, v, ⟨n, hn, hv⟩, rfl⟩
    exact ⟨n, (lookup_eq_some_iff_mem hkeys).1 hn, v, hv, rfl⟩
  · rintro ⟨n, hn, v, hv, rfl⟩
    exact ⟨some n, ⟨y, hsub y (List.mem_map_of_mem hn), rfl, (lookup_eq_some_iff_mem hkeys).2 hn⟩,
      v, ⟨n, rfl, hv⟩, rfl⟩

/-- Wherever the slots of the entities are right, the search in slots is the search by names. -/
theorem findInSlots_eq (hm : m.WellFormed) (hslots : Locates slotOf m) :
    findInSlots slotOf m g = some (m.find g) := by
  have hempty : List.replicate m.entities.length none = m.slotsOf [] := List.map_const'.symm
  have hkeys : (m.searchOrder.reverse ++ ([] : Assignment).map Prod.fst).Nodup := by
    rw [List.map_nil, List.append_nil]
    exact nodup_reverse_searchOrder hm
  have hsub : ∀ y ∈ m.searchOrder.reverse ++ ([] : Assignment).map Prod.fst, y ∈ m.entities := by
    rw [List.map_nil, List.append_nil]
    exact fun y hy => (m.mem_reverse_searchOrder_iff y).1 hy
  rw [findInSlots, hempty, slotExtensions_eq hm hslots hkeys hsub, find, Option.map_some,
    List.map_map]
  refine congrArg some (List.map_congr_left fun a ha => ?_)
  have hbound := keys_of_mem_extensions ha
  exact slotMatch_slotsOf hm (hbound ▸ hkeys) (hbound ▸ hsub)

-- the look-up of a name that is no entity ends the search, or finds the first entity in its place
example :
    let m : Motif := { entities := ["A"], edges := [⟨"A", "B", false, []⟩] }
    let g := HostGraph.ofMentions true [.vertex "p" ∅]
    findInSlots m.slot? m g = none ∧
      findInSlots (m.slotOr 0) m g = some [Dict.ofList [("A", "p")]] :=
  ⟨rfl, rfl⟩

end MotifQuery.Motif
