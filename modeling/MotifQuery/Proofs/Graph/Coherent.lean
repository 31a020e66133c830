import MotifQuery.Graph.Basic

/-!
# `MotifQuery.Proofs.Graph.Coherent`: the parts of a host graph in step

A host graph keeps two lists, two indices and two tables of neighbours. `Coherent` says
how the last four follow from the two lists: the vertex index gives every id its position,
the edge index gives every key the position of its edge, and the tables hold the positions
that some edge leads to or comes from.

In a coherent graph no id stands twice (`Coherent.nodup_ids`), no two edges have the same
ends (`Coherent.pairwise_ends`), and a look-up between two positions gives exactly the edge
that leads from one to the other (`Coherent.edgeBetween?_eq_some_iff`).
-/

set_option autoImplicit false

namespace MotifQuery

/-- The ends of an edge. -/
def Edge.ends (e : Edge) : String × String :=
  (e.source, e.target)

/-- Two pairs of ends belong to one edge. In an undirected graph the order of the ends
does not count. -/
def SameEnds (directed : Bool) (p q : String × String) : Prop :=
  p = q ∨ directed = false ∧ p = q.swap

instance (directed : Bool) (p q : String × String) : Decidable (SameEnds directed p q) :=
  inferInstanceAs (Decidable (_ ∨ _))

namespace HostGraph

/-- The vertex ids in order. -/
def ids (g : HostGraph) : List String :=
  g.vertices.toList.map Vertex.id

/-- The ends of the edges in order. -/
def ends (g : HostGraph) : List (String × String) :=
  g.edges.toList.map Edge.ends

/-- The key of the edge with two ends, when both are vertices. -/
def key? (g : HostGraph) (p : String × String) : Option (Nat × Nat) :=
  (g.position? p.1).bind fun s => (g.position? p.2).map fun t => g.edgeKey s t

/-- The edge with two ends leads from `s` to `t`. -/
def Leads (g : HostGraph) (p : String × String) (s t : Nat) : Prop :=
  (g.position? p.1 = some s ∧ g.position? p.2 = some t) ∨
    (g.directed = false ∧ g.position? p.1 = some t ∧ g.position? p.2 = some s)

/-- The indices and the tables of neighbours say what the lists of vertices and edges
say. -/
structure Coherent (g : HostGraph) : Prop where
  position_iff : ∀ id n, g.position? id = some n ↔ g.ids[n]? = some id
  ends_known : ∀ p ∈ g.ends, (g.key? p).isSome
  index_iff : ∀ key n, g.edgeIndex[key]? = some n ↔ (g.ends[n]?).bind g.key? = some key
  outgoing_size : g.outgoing.size = g.ids.length
  incoming_size : g.incoming.size = g.ids.length
  successors_iff : ∀ s t, t ∈ g.successors s ↔ ∃ p ∈ g.ends, g.Leads p s t
  predecessors_iff : ∀ s t, s ∈ g.predecessors t ↔ ∃ p ∈ g.ends, g.Leads p s t
  successors_ascending : ∀ n, (g.successors n).Pairwise (· < ·)
  predecessors_ascending : ∀ n, (g.predecessors n).Pairwise (· < ·)

/-! ### Keys and ends -/

/-- Keys are told by the positions of the ends. -/
theorem key?_congr {g g' : HostGraph} (hposition : g'.position? = g.position?)
    (hdirected : g'.directed = g.directed) : g'.key? = g.key? := by
  funext p
  simp only [key?, edgeKey, hposition, hdirected]

/-- Where an edge leads is told by the positions of its ends. -/
theorem leads_congr {g g' : HostGraph} (hposition : g'.position? = g.position?)
    (hdirected : g'.directed = g.directed) : g'.Leads = g.Leads := by
  funext p s t
  simp only [Leads, hposition, hdirected]

/-- Two pairs of positions have one key when they are the same edge. -/
theorem edgeKey_eq_iff (g : HostGraph) (a b s t : Nat) :
    g.edgeKey a b = g.edgeKey s t
      ↔ (a = s ∧ b = t) ∨ (g.directed = false ∧ a = t ∧ b = s) := by
  unfold edgeKey
  cases g.directed with
  | true => simp
  | false =>
    simp only [Bool.false_or, decide_eq_true_eq, true_and]
    split <;> split <;> simp only [Prod.mk.injEq] <;> omega

/-- The key of an edge names the positions between which the edge leads. -/
theorem key?_eq_some_iff {g : HostGraph} {p : String × String} {s t : Nat} :
    g.key? p = some (g.edgeKey s t) ↔ g.Leads p s t := by
  unfold key? Leads
  cases h₁ : g.position? p.1 with
  | none => simp
  | some a =>
    cases h₂ : g.position? p.2 with
    | none => simp
    | some b => simpa using g.edgeKey_eq_iff a b s t

/-- Every key is the key of some positions. -/
theorem exists_leads_of_key? {g : HostGraph} {p : String × String} {key : Nat × Nat}
    (h : g.key? p = some key) : ∃ s t, key = g.edgeKey s t ∧ g.Leads p s t := by
  have hp := h
  unfold key? at hp
  obtain ⟨s, -, hp⟩ := Option.bind_eq_some_iff.1 hp
  obtain ⟨t, -, rfl⟩ := Option.map_eq_some_iff.1 hp
  exact ⟨s, t, rfl, key?_eq_some_iff.1 h⟩

/-- A pair of ends has a key when both ends are vertices. -/
theorem isSome_key?_iff {g : HostGraph} {p : String × String} :
    (g.key? p).isSome ↔ (g.position? p.1).isSome ∧ (g.position? p.2).isSome := by
  unfold key?
  cases g.position? p.1 <;> cases g.position? p.2 <;> simp

/-! ### What a coherent graph answers -/

namespace Coherent

variable {g : HostGraph}

/-- No id stands twice. -/
theorem nodup_ids (h : Coherent g) : g.ids.Nodup := by
  rw [List.Nodup, List.pairwise_iff_getElem]
  intro m n hm hn hmn heq
  have hm' := (h.position_iff _ m).2 (List.getElem?_eq_getElem hm)
  have hn' := (h.position_iff _ n).2 (List.getElem?_eq_getElem hn)
  rw [heq, hn'] at hm'
  cases hm'
  omega

/-- The ids are exactly what has a position. -/
theorem isSome_position?_iff (h : Coherent g) (id : String) :
    (g.position? id).isSome ↔ id ∈ g.ids := by
  rw [Option.isSome_iff_exists, List.mem_iff_getElem?]
  exact exists_congr fun n => h.position_iff id n

/-- The ends of an edge are vertices. -/
theorem ends_mem (h : Coherent g) {p : String × String} (hp : p ∈ g.ends) :
    p.1 ∈ g.ids ∧ p.2 ∈ g.ids := by
  obtain ⟨h₁, h₂⟩ := isSome_key?_iff.1 (h.ends_known p hp)
  exact ⟨(h.isSome_position?_iff _).1 h₁, (h.isSome_position?_iff _).1 h₂⟩

/-- Positions determine ids. -/
theorem position?_inj (h : Coherent g) {x y : String} {n : Nat} (hx : g.position? x = some n)
    (hy : g.position? y = some n) : x = y := by
  rw [h.position_iff] at hx hy
  exact Option.some.inj (hx.symm.trans hy)

/-- Two edges with one key have the same ends. -/
theorem sameEnds_of_key? (h : Coherent g) {p q : String × String} (hp : (g.key? p).isSome)
    (hpq : g.key? p = g.key? q) : SameEnds g.directed p q := by
  obtain ⟨key, hkey⟩ := Option.isSome_iff_exists.1 hp
  obtain ⟨s, t, rfl, hleads⟩ := exists_leads_of_key? hkey
  have hleads' := key?_eq_some_iff.1 (hpq ▸ hkey)
  unfold Leads at hleads hleads'
  rcases hleads with ⟨h₁, h₂⟩ | ⟨hd, h₁, h₂⟩ <;> rcases hleads' with ⟨h₃, h₄⟩ | ⟨hd', h₃, h₄⟩
  · exact .inl (Prod.ext (h.position?_inj h₁ h₃) (h.position?_inj h₂ h₄))
  · exact .inr ⟨hd', Prod.ext (h.position?_inj h₁ h₄) (h.position?_inj h₂ h₃)⟩
  · exact .inr ⟨hd, Prod.ext (h.position?_inj h₁ h₄) (h.position?_inj h₂ h₃)⟩
  · exact .inl (Prod.ext (h.position?_inj h₁ h₃) (h.position?_inj h₂ h₄))

/-- Pairs of ends that belong to one edge have one key. -/
theorem key?_eq_of_sameEnds {p q : String × String} (hpq : SameEnds g.directed p q) :
    g.key? p = g.key? q := by
  rcases hpq with rfl | ⟨hd, rfl⟩
  · rfl
  · unfold key?
    cases h₁ : g.position? q.1 with
    | none => cases g.position? q.swap.1 <;> simp [h₁]
    | some a =>
      cases h₂ : g.position? q.2 with
      | none => simp [h₂]
      | some b =>
        have hkey : g.edgeKey b a = g.edgeKey a b :=
          (g.edgeKey_eq_iff b a a b).2 (.inr ⟨hd, rfl, rfl⟩)
        simp [h₁, h₂, hkey]

/-- No two edges join the same ends. -/
theorem pairwise_ends (h : Coherent g) :
    g.ends.Pairwise fun p q => ¬ SameEnds g.directed p q := by
  rw [List.pairwise_iff_getElem]
  intro m n hm hn hmn hsame
  have hkey := key?_eq_of_sameEnds hsame
  obtain ⟨key, hk⟩ := Option.isSome_iff_exists.1 (h.ends_known _ (List.getElem_mem hm))
  have hm' := (h.index_iff key m).2 (by rw [List.getElem?_eq_getElem hm]; exact hk)
  have hn' := (h.index_iff key n).2 (by rw [List.getElem?_eq_getElem hn]; exact hkey.symm.trans hk)
  rw [hm'] at hn'
  cases hn'
  omega

/-- Between the positions of two ids leads exactly the edge with these ends. -/
theorem leads_iff_sameEnds (h : Coherent g) {x y : String} {s t : Nat} {p : String × String}
    (hs : g.position? x = some s) (ht : g.position? y = some t) :
    g.Leads p s t ↔ SameEnds g.directed p (x, y) := by
  have hiff : ∀ {id other : String} {n : Nat}, g.position? id = some n →
      (g.position? other = some n ↔ other = id) := fun hid =>
    ⟨fun hother => h.position?_inj hother hid, fun heq => heq ▸ hid⟩
  unfold Leads SameEnds
  rw [hiff hs, hiff ht, hiff ht, hiff hs, Prod.ext_iff, Prod.ext_iff]
  rfl

/-- Every vertex stands at the position of its id. -/
theorem exists_position_of_mem (h : Coherent g) {v : Vertex} (hv : v ∈ g.vertices) :
    ∃ n, g.position? v.id = some n ∧ g.vertices[n]? = some v := by
  obtain ⟨n, hn⟩ := Array.getElem?_of_mem hv
  refine ⟨n, (h.position_iff v.id n).2 ?_, hn⟩
  rw [ids, List.getElem?_map, Array.getElem?_toList, hn]
  rfl

/-- What has a position is the id of the vertex there. -/
theorem position?_eq_some_iff (h : Coherent g) {id : String} {n : Nat} :
    g.position? id = some n ↔ ∃ v, g.vertices[n]? = some v ∧ v.id = id := by
  rw [h.position_iff, ids, List.getElem?_map, Array.getElem?_toList, Option.map_eq_some_iff]

/-- A look-up between two positions gives exactly the edge that leads from one to the
other. -/
theorem edgeBetween?_eq_some_iff (h : Coherent g) {s t : Nat} {e : Edge} :
    g.edgeBetween? s t = some e ↔ e ∈ g.edges ∧ g.Leads e.ends s t := by
  have hindex : ∀ n, g.edgeIndex[g.edgeKey s t]? = some n
      ↔ ∃ f, g.edges[n]? = some f ∧ g.Leads f.ends s t := fun n => by
    rw [h.index_iff, Option.bind_eq_some_iff]
    simp only [ends, List.getElem?_map, Option.map_eq_some_iff, key?_eq_some_iff,
      Array.getElem?_toList]
    constructor
    · rintro ⟨_, ⟨f, hf, rfl⟩, hleads⟩
      exact ⟨f, hf, hleads⟩
    · rintro ⟨f, hf, hleads⟩
      exact ⟨_, ⟨f, hf, rfl⟩, hleads⟩
  -- the look-up asks the successors first and then the edge index, which say the same
  constructor
  · intro he
    unfold edgeBetween? at he
    split at he
    · obtain ⟨n, hn, he⟩ := Option.bind_eq_some_iff.1 he
      obtain ⟨f, hf, hleads⟩ := (hindex n).1 hn
      rw [hf] at he
      cases he
      exact ⟨Array.mem_of_getElem? hf, hleads⟩
    · cases he
  · rintro ⟨hmem, hleads⟩
    obtain ⟨n, hn⟩ := Array.getElem?_of_mem hmem
    have hsucc : t ∈ g.successors s :=
      (h.successors_iff s t).2 ⟨e.ends, List.mem_map_of_mem hmem.val, hleads⟩
    unfold edgeBetween?
    rw [if_pos (List.contains_iff_mem.2 hsucc), (hindex n).2 ⟨e, hn, hleads⟩]
    exact hn

end Coherent

end HostGraph

end MotifQuery
