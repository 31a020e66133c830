import MotifQuery.Proofs.Graph.Coherent

/-!
# `MotifQuery.Proofs.Graph.Calls`: calls keep a host graph coherent

`Mention` is a call on a host graph and `ofMentions` the graph after a list of calls. Each
call either merges attributes, which the indices and tables do not see
(`Coherent.of_shape`), or adds a vertex or an edge, which all of them note. So every graph
that calls build is coherent (`coherent_ofMentions`).
-/

set_option autoImplicit false

namespace MotifQuery

/-! ### Ascending lists of positions -/

theorem mem_insertPosition {m n : Nat} {l : List Nat} :
    m ∈ insertPosition n l ↔ m = n ∨ m ∈ l := by
  induction l with
  | nil => simp [insertPosition]
  | cons k rest ih =>
    rw [insertPosition]
    split
    · exact List.mem_cons
    · split
      · next heq =>
        subst heq
        simp
      · rw [List.mem_cons, ih, List.mem_cons]
        exact or_left_comm

/-- Insertion keeps a list of positions ascending. -/
theorem pairwise_insertPosition {n : Nat} {l : List Nat} (h : l.Pairwise (· < ·)) :
    (insertPosition n l).Pairwise (· < ·) := by
  induction l with
  | nil => simp [insertPosition]
  | cons k rest ih =>
    obtain ⟨hk, hrest⟩ := List.pairwise_cons.1 h
    rw [insertPosition]
    split
    · next hlt =>
      refine List.pairwise_cons.2 ⟨fun m hm => ?_, h⟩
      rcases List.mem_cons.1 hm with rfl | hm
      · exact hlt
      · exact Nat.lt_trans hlt (hk m hm)
    · split
      · exact h
      · refine List.pairwise_cons.2 ⟨fun m hm => ?_, ih hrest⟩
        rcases mem_insertPosition.1 hm with rfl | hm
        · omega
        · exact hk m hm

/-! ### Calls -/

/-- A call on a host graph: the mention of a vertex or of an edge. -/
inductive Mention where
  | vertex (id : String) (attributes : Attributes)
  | edge (source target : String) (attributes : Attributes)

namespace HostGraph

/-- The graph after a call. -/
def mention (g : HostGraph) : Mention → HostGraph
  | .vertex id attributes => g.addVertex id attributes
  | .edge source target attributes => g.addEdge source target attributes

/-- The graph after a list of calls on the empty one. -/
def ofMentions (directed : Bool) (ms : List Mention) : HostGraph :=
  ms.foldl mention (empty directed)

/-! ### What a call does to an index -/

/-- An index of a list by keys is that of the list with one more element once it has the new
position under the new key. -/
theorem index_concat_iff {α κ : Type} [DecidableEq κ] (key : α → Option κ) {xs : List α} {x : α}
    {k : κ} {index index' : κ → Option Nat}
    (h : ∀ k' n, index k' = some n ↔ (xs[n]?).bind key = some k') (hx : key x = some k)
    (hnone : index k = none)
    (hindex : ∀ k', index' k' = if k' = k then some xs.length else index k') (k' : κ) (n : Nat) :
    index' k' = some n ↔ ((xs ++ [x])[n]?).bind key = some k' := by
  rw [hindex, List.getElem?_append]
  by_cases hk : k' = k
  · subst hk
    rw [if_pos rfl, Option.some_inj]
    split
    · next hlt =>
      -- no element that stands earlier has the new key
      refine ⟨fun heq => by omega, fun hold => ?_⟩
      rw [← h, hnone] at hold
      cases hold
    · next hge =>
      rw [List.getElem?_singleton]
      split
      · exact ⟨fun _ => hx, fun _ => by omega⟩
      · exact ⟨fun heq => by omega, fun hn => by cases hn⟩
  · rw [if_neg hk, h]
    split
    · rfl
    · next hge =>
      rw [List.getElem?_eq_none (by omega), List.getElem?_singleton]
      split
      · rw [Option.bind_some, hx, Option.some_inj]
        exact ⟨fun hn => (by cases hn), fun heq => absurd heq.symm hk⟩
      · rfl

/-! ### What a call does to the tables of neighbours -/

/-- A table row after a row was changed. -/
theorem getD_modify (rows : Array (List Nat)) (f : List Nat → List Nat) {i : Nat} (n : Nat)
    (hi : i < rows.size) :
    ((rows.modify i f)[n]?).getD []
      = if i = n then f ((rows[n]?).getD []) else (rows[n]?).getD [] := by
  rw [Array.getElem?_modify]
  split
  · next heq =>
    subst heq
    simp [hi]
  · rfl

theorem mem_successors_join (g : HostGraph) (s t : Nat) (hs : s < g.outgoing.size)
    (s' t' : Nat) :
    t' ∈ (g.join s t).successors s' ↔ t' ∈ g.successors s' ∨ (s' = s ∧ t' = t) := by
  show t' ∈ ((g.outgoing.modify s (insertPosition t))[s']?).getD [] ↔ _
  rw [getD_modify _ _ _ hs]
  unfold successors
  split
  · next heq =>
    subst heq
    rw [mem_insertPosition, or_comm]
    simp
  · next hne => simp [Ne.symm hne]

theorem mem_predecessors_join (g : HostGraph) (s t : Nat) (ht : t < g.incoming.size)
    (s' t' : Nat) :
    s' ∈ (g.join s t).predecessors t' ↔ s' ∈ g.predecessors t' ∨ (s' = s ∧ t' = t) := by
  show s' ∈ ((g.incoming.modify t (insertPosition s))[t']?).getD [] ↔ _
  rw [getD_modify _ _ _ ht]
  unfold predecessors
  split
  · next heq =>
    subst heq
    rw [mem_insertPosition, or_comm]
    simp
  · next hne => simp [Ne.symm hne]

/-- Changing a row by an insertion keeps all rows ascending. -/
theorem pairwise_getD_modify {rows : Array (List Nat)} (i m : Nat)
    (h : ∀ n : Nat, ((rows[n]?).getD []).Pairwise (· < ·)) (n : Nat) :
    (((rows.modify i (insertPosition m))[n]?).getD []).Pairwise (· < ·) := by
  by_cases hi : i < rows.size
  · rw [getD_modify _ _ _ hi]
    split
    · exact pairwise_insertPosition (h n)
    · exact h n
  · rw [Array.getElem?_modify]
    split
    · next heq =>
      subst heq
      simp [hi]
    · exact h n

/-! ### Vertices -/

namespace Coherent

variable {g g' : HostGraph}

/-- Attributes do not count for coherence. -/
theorem of_shape (h : Coherent g) (hdirected : g'.directed = g.directed)
    (hids : g'.ids = g.ids) (hends : g'.ends = g.ends)
    (hvertexIndex : g'.vertexIndex = g.vertexIndex) (hedgeIndex : g'.edgeIndex = g.edgeIndex)
    (houtgoing : g'.outgoing = g.outgoing) (hincoming : g'.incoming = g.incoming) :
    Coherent g' := by
  -- merging attributes keeps ids and ends, and all else follows from these
  have hposition : g'.position? = g.position? := by
    funext id
    unfold position?
    rw [hvertexIndex]
  have hkey : g'.key? = g.key? := key?_congr hposition hdirected
  have hleads : g'.Leads = g.Leads := leads_congr hposition hdirected
  have hsuccessors : g'.successors = g.successors := by
    funext n
    simp only [successors, houtgoing]
  have hpredecessors : g'.predecessors = g.predecessors := by
    funext n
    simp only [predecessors, hincoming]
  constructor
  case position_iff => simpa only [hposition, hids] using h.position_iff
  case ends_known => simpa only [hends, hkey] using h.ends_known
  case index_iff => simpa only [hedgeIndex, hends, hkey] using h.index_iff
  case outgoing_size => simpa only [houtgoing, hids] using h.outgoing_size
  case incoming_size => simpa only [hincoming, hids] using h.incoming_size
  case successors_iff => simpa only [hsuccessors, hends, hleads] using h.successors_iff
  case predecessors_iff => simpa only [hpredecessors, hends, hleads] using h.predecessors_iff
  case successors_ascending => simpa only [hsuccessors] using h.successors_ascending
  case predecessors_ascending => simpa only [hpredecessors] using h.predecessors_ascending

theorem empty (directed : Bool) : Coherent (HostGraph.empty directed) where
  position_iff id n := by simp [position?, ids, HostGraph.empty]
  ends_known p hp := by simp [ends, HostGraph.empty] at hp
  index_iff key n := by simp [ends, HostGraph.empty]
  outgoing_size := rfl
  incoming_size := rfl
  successors_iff s t := by simp [successors, ends, HostGraph.empty]
  predecessors_iff s t := by simp [predecessors, ends, HostGraph.empty]
  successors_ascending n := by simp [successors, HostGraph.empty]
  predecessors_ascending n := by simp [predecessors, HostGraph.empty]

end Coherent

/-- The positions of the ids after a new vertex. -/
theorem position?_addVertex_of_none {g : HostGraph} {id : String} (attributes : Attributes)
    (h : g.position? id = none) (x : String) :
    (g.addVertex id attributes).position? x
      = if x = id then some g.ids.length else g.position? x := by
  have hsize : g.vertices.size = g.ids.length := by simp [ids]
  simp only [addVertex, h]
  show (g.vertexIndex.insert id g.vertices.size)[x]? = _
  rw [Std.ExtTreeMap.getElem?_insert, hsize]
  by_cases hx : x = id
  · rw [if_pos hx, if_pos (Std.LawfulEqCmp.compare_eq_iff_eq.2 hx.symm)]
  · rw [if_neg hx, if_neg (fun hc => hx (Std.LawfulEqCmp.compare_eq_iff_eq.1 hc).symm)]
    rfl

theorem ids_addVertex_of_none {g : HostGraph} {id : String} (attributes : Attributes)
    (h : g.position? id = none) : (g.addVertex id attributes).ids = g.ids ++ [id] := by
  simp [ids, addVertex, h]

/-- A list keeps its image when one entry changes within its fibre. -/
theorem map_toList_modify {α β : Type} (f : α → β) (change : α → α)
    (h : ∀ a, f (change a) = f a) (xs : Array α) (n : Nat) :
    (xs.modify n change).toList.map f = xs.toList.map f := by
  refine List.ext_getElem? fun m => ?_
  rw [List.getElem?_map, List.getElem?_map, Array.getElem?_toList, Array.getElem?_toList,
    Array.getElem?_modify]
  split
  · rw [Option.map_map]
    exact congrArg (fun k => Option.map k _) (funext h)
  · rfl

/-- A table gains an empty row without a change to what its rows hold. -/
theorem getD_push_nil (rows : Array (List Nat)) (n : Nat) :
    ((rows.push [])[n]?).getD [] = (rows[n]?).getD [] := by
  rw [Array.getElem?_push]
  split
  · next heq => simp [heq]
  · rfl

namespace Coherent

variable {g : HostGraph}

/-- An id without a position is new. -/
theorem not_mem_ids (h : Coherent g) {id : String} (hnone : g.position? id = none) :
    id ∉ g.ids := by
  intro hmem
  rw [← h.isSome_position?_iff, hnone] at hmem
  cases hmem

/-- The ends of an edge are vertices already, so they keep their positions beside a new one. -/
theorem position?_addVertex_of_mem_ends (h : Coherent g) {id : String} (attributes : Attributes)
    (hnone : g.position? id = none) {p : String × String} (hp : p ∈ g.ends) :
    (g.addVertex id attributes).position? p.1 = g.position? p.1
      ∧ (g.addVertex id attributes).position? p.2 = g.position? p.2 := by
  have hnew := h.not_mem_ids hnone
  have hposition := position?_addVertex_of_none attributes hnone
  obtain ⟨h₁, h₂⟩ := h.ends_mem hp
  have hne₁ : p.1 ≠ id := fun heq => hnew (heq ▸ h₁)
  have hne₂ : p.2 ≠ id := fun heq => hnew (heq ▸ h₂)
  exact ⟨(hposition _).trans (if_neg hne₁), (hposition _).trans (if_neg hne₂)⟩

/-- A new vertex has no edges, so the others keep theirs. -/
theorem addVertex_of_none (h : Coherent g) {id : String} (attributes : Attributes)
    (hnone : g.position? id = none) : Coherent (g.addVertex id attributes) := by
  -- edges, their index and their neighbours are untouched; only the list of ids grows
  have hids := ids_addVertex_of_none attributes hnone
  have hposition := position?_addVertex_of_none attributes hnone
  have hends : (g.addVertex id attributes).ends = g.ends := by simp [ends, addVertex, hnone]
  have hindex : (g.addVertex id attributes).edgeIndex = g.edgeIndex := by
    simp [addVertex, hnone]
  have hdirected : (g.addVertex id attributes).directed = g.directed := by
    simp [addVertex, hnone]
  have hkey : ∀ p ∈ g.ends, (g.addVertex id attributes).key? p = g.key? p := fun p hp => by
    simp only [key?, edgeKey, h.position?_addVertex_of_mem_ends attributes hnone hp, hdirected]
  have hleads : ∀ p ∈ g.ends, ∀ s t,
      (g.addVertex id attributes).Leads p s t ↔ g.Leads p s t := fun p hp s t => by
    simp only [Leads, h.position?_addVertex_of_mem_ends attributes hnone hp, hdirected]
  have hsuccessors : (g.addVertex id attributes).successors = g.successors := by
    funext n
    simp only [successors, addVertex, hnone, getD_push_nil]
  have hpredecessors : (g.addVertex id attributes).predecessors = g.predecessors := by
    funext n
    simp only [predecessors, addVertex, hnone, getD_push_nil]
  constructor
  case position_iff =>
    intro x n
    have hbind : ∀ y m, g.position? y = some m ↔ (g.ids[m]?).bind some = some y := by
      intro y m
      rw [h.position_iff, Option.bind_fun_some]
    rw [hids, index_concat_iff some hbind rfl hnone hposition, Option.bind_fun_some]
  case ends_known =>
    intro p hp
    rw [hends] at hp
    rw [hkey p hp]
    exact h.ends_known p hp
  case index_iff =>
    intro key n
    rw [hindex, h.index_iff, hends]
    cases hn : g.ends[n]? with
    | none => rfl
    | some p => rw [Option.bind_some, Option.bind_some, hkey p (List.mem_of_getElem? hn)]
  case outgoing_size =>
    rw [hids, List.length_append, ← h.outgoing_size]
    simp [addVertex, hnone]
  case incoming_size =>
    rw [hids, List.length_append, ← h.incoming_size]
    simp [addVertex, hnone]
  case successors_iff =>
    intro s t
    rw [hsuccessors, h.successors_iff, hends]
    exact exists_congr fun p => and_congr_right fun hp => (hleads p hp s t).symm
  case predecessors_iff =>
    intro s t
    rw [hpredecessors, h.predecessors_iff, hends]
    exact exists_congr fun p => and_congr_right fun hp => (hleads p hp s t).symm
  case successors_ascending =>
    rw [hsuccessors]
    exact h.successors_ascending
  case predecessors_ascending =>
    rw [hpredecessors]
    exact h.predecessors_ascending

theorem addVertex (h : Coherent g) (id : String) (attributes : Attributes) :
    Coherent (g.addVertex id attributes) := by
  cases hn : g.position? id with
  | none => exact h.addVertex_of_none attributes hn
  | some n =>
    have heq : g.addVertex id attributes = { g with
        vertices := g.vertices.modify n fun v =>
          { v with attributes := v.attributes.merge attributes } } := by
      simp only [HostGraph.addVertex, hn]
    rw [heq]
    have hids := map_toList_modify Vertex.id
      (fun v => { v with attributes := v.attributes.merge attributes })
      (fun _ => rfl) g.vertices n
    exact h.of_shape rfl hids rfl rfl rfl rfl rfl

/-- A vertex has its row in the table of successors. -/
theorem lt_outgoing_size (h : Coherent g) {id : String} {n : Nat}
    (hn : g.position? id = some n) : n < g.outgoing.size := by
  rw [h.outgoing_size]
  exact (List.getElem?_eq_some_iff.1 ((h.position_iff id n).1 hn)).1

/-- A vertex has its row in the table of predecessors. -/
theorem lt_incoming_size (h : Coherent g) {id : String} {n : Nat}
    (hn : g.position? id = some n) : n < g.incoming.size := by
  rw [h.incoming_size, ← h.outgoing_size]
  exact h.lt_outgoing_size hn

end Coherent

/-! ### Edges -/

/-- The graph with one more edge, before the tables of neighbours note it. -/
def pushEdge (g : HostGraph) (s t : Nat) (edge : Edge) : HostGraph :=
  { g with
    edges := g.edges.push edge
    edgeIndex := g.edgeIndex.insert (g.edgeKey s t) g.edges.size }

/-- An edge under a new key is pushed and noted, in an undirected graph both ways. -/
theorem addEdgeAt_of_none {g : HostGraph} {s t : Nat} (edge : Edge)
    (h : g.edgeIndex[g.edgeKey s t]? = none) :
    g.addEdgeAt s t edge
      = if g.directed then (g.pushEdge s t edge).join s t
        else ((g.pushEdge s t edge).join s t).join t s := by
  simp only [addEdgeAt, h]
  rfl

/-- What stays and what the edge list gains under a new key. -/
theorem addEdgeAt_of_none_shape {g : HostGraph} {s t : Nat} (edge : Edge)
    (h : g.edgeIndex[g.edgeKey s t]? = none) :
    (g.addEdgeAt s t edge).directed = g.directed ∧ (g.addEdgeAt s t edge).ids = g.ids ∧
      (g.addEdgeAt s t edge).ends = g.ends ++ [edge.ends] ∧
      (g.addEdgeAt s t edge).vertexIndex = g.vertexIndex ∧
      (g.addEdgeAt s t edge).edgeIndex = g.edgeIndex.insert (g.edgeKey s t) g.ends.length ∧
      (g.addEdgeAt s t edge).outgoing.size = g.outgoing.size ∧
      (g.addEdgeAt s t edge).incoming.size = g.incoming.size := by
  rw [addEdgeAt_of_none edge h]
  have hends : (g.edges.push edge).toList.map Edge.ends = g.ends ++ [edge.ends] := by
    simp [ends]
  have hsize : g.edges.size = g.ends.length := by simp [ends]
  rw [← hsize]
  split
  · exact ⟨rfl, rfl, hends, rfl, rfl, Array.size_modify, Array.size_modify⟩
  · refine ⟨rfl, rfl, hends, rfl, rfl, ?_, ?_⟩
    · exact Array.size_modify.trans Array.size_modify
    · exact Array.size_modify.trans Array.size_modify

theorem mem_successors_addEdgeAt_of_none {g : HostGraph} {s t : Nat} (edge : Edge)
    (h : g.edgeIndex[g.edgeKey s t]? = none) (hs : s < g.outgoing.size)
    (ht : t < g.outgoing.size) (s' t' : Nat) :
    t' ∈ (g.addEdgeAt s t edge).successors s'
      ↔ t' ∈ g.successors s' ∨ (s = s' ∧ t = t') ∨ (g.directed = false ∧ s = t' ∧ t = s') := by
  have hjoin := mem_successors_join (g.pushEdge s t edge) s t hs s' t'
  rw [addEdgeAt_of_none edge h]
  split
  · next hd =>
    rw [hjoin, hd]
    simp [pushEdge, successors, eq_comm]
  · next hd =>
    have ht' : t < ((g.pushEdge s t edge).join s t).outgoing.size := by
      show t < (g.outgoing.modify s _).size
      rwa [Array.size_modify]
    rw [mem_successors_join _ t s ht', hjoin]
    simp only [Bool.not_eq_true] at hd
    simp only [hd, pushEdge, successors, true_and, eq_comm, or_assoc, and_comm]

theorem mem_predecessors_addEdgeAt_of_none {g : HostGraph} {s t : Nat} (edge : Edge)
    (h : g.edgeIndex[g.edgeKey s t]? = none) (hs : s < g.incoming.size)
    (ht : t < g.incoming.size) (s' t' : Nat) :
    s' ∈ (g.addEdgeAt s t edge).predecessors t'
      ↔ s' ∈ g.predecessors t' ∨ (s = s' ∧ t = t')
        ∨ (g.directed = false ∧ s = t' ∧ t = s') := by
  have hjoin := mem_predecessors_join (g.pushEdge s t edge) s t ht s' t'
  rw [addEdgeAt_of_none edge h]
  split
  · next hd =>
    rw [hjoin, hd]
    simp [pushEdge, predecessors, eq_comm]
  · next hd =>
    have hs' : s < ((g.pushEdge s t edge).join s t).incoming.size := by
      show s < (g.incoming.modify t _).size
      rwa [Array.size_modify]
    rw [mem_predecessors_join _ t s hs', hjoin]
    simp only [Bool.not_eq_true] at hd
    simp only [hd, pushEdge, predecessors, true_and, eq_comm, or_assoc, and_comm]

/-- Noting an edge keeps both tables ascending. -/
theorem ascending_addEdgeAt_of_none {g : HostGraph} {s t : Nat} (edge : Edge)
    (h : g.edgeIndex[g.edgeKey s t]? = none) :
    ((∀ n, (g.successors n).Pairwise (· < ·)) →
      ∀ n, ((g.addEdgeAt s t edge).successors n).Pairwise (· < ·)) ∧
    ((∀ n, (g.predecessors n).Pairwise (· < ·)) →
      ∀ n, ((g.addEdgeAt s t edge).predecessors n).Pairwise (· < ·)) := by
  rw [addEdgeAt_of_none edge h]
  split
  · exact ⟨fun ha => pairwise_getD_modify s t ha, fun ha => pairwise_getD_modify t s ha⟩
  · exact ⟨fun ha => pairwise_getD_modify t s (pairwise_getD_modify s t ha),
      fun ha => pairwise_getD_modify s t (pairwise_getD_modify t s ha)⟩

namespace Coherent

variable {g : HostGraph}

/-- A new edge between two vertices is indexed under its key and noted at its ends. -/
theorem addEdgeAt_of_none (h : Coherent g) {s t : Nat} {edge : Edge}
    (hs : g.position? edge.source = some s) (ht : g.position? edge.target = some t)
    (hnone : g.edgeIndex[g.edgeKey s t]? = none) : Coherent (g.addEdgeAt s t edge) := by
  obtain ⟨hdirected, hids, hends, hvertexIndex, hedgeIndex, houtgoing, hincoming⟩ :=
    addEdgeAt_of_none_shape edge hnone
  have hposition : (g.addEdgeAt s t edge).position? = g.position? := by
    funext id
    simp only [position?, hvertexIndex]
  have hkey : (g.addEdgeAt s t edge).key? = g.key? := key?_congr hposition hdirected
  have hleads : (g.addEdgeAt s t edge).Leads = g.Leads := leads_congr hposition hdirected
  have hnew : g.Leads edge.ends s t := .inl ⟨hs, ht⟩
  have hnewKey : g.key? edge.ends = some (g.edgeKey s t) := key?_eq_some_iff.2 hnew
  -- the new edge leads exactly between its ends
  have hnewLeads : ∀ s' t', g.Leads edge.ends s' t'
      ↔ (s = s' ∧ t = t') ∨ (g.directed = false ∧ s = t' ∧ t = s') := fun s' t' => by
    rw [← key?_eq_some_iff, hnewKey, Option.some_inj]
    exact g.edgeKey_eq_iff s t s' t'
  have hexists : ∀ s' t', (∃ p ∈ g.ends ++ [edge.ends], g.Leads p s' t')
      ↔ (∃ p ∈ g.ends, g.Leads p s' t') ∨ g.Leads edge.ends s' t' := fun s' t' => by
    simp only [List.mem_append, List.mem_singleton, or_and_right, exists_or, exists_eq_left]
  constructor
  case position_iff =>
    rw [hposition, hids]
    exact h.position_iff
  case ends_known =>
    intro p hp
    rw [hends] at hp
    rw [hkey]
    rcases List.mem_append.1 hp with hp | hp
    · exact h.ends_known p hp
    · rw [List.mem_singleton.1 hp, hnewKey]
      rfl
  case index_iff =>
    intro key n
    rw [hkey, hends]
    refine index_concat_iff g.key? h.index_iff hnewKey hnone (fun key' => ?_) key n
    rw [hedgeIndex, Std.ExtTreeMap.getElem?_insert]
    by_cases hk : key' = g.edgeKey s t
    · rw [if_pos hk, if_pos (Std.LawfulEqCmp.compare_eq_iff_eq.2 hk.symm)]
    · rw [if_neg hk, if_neg fun heq => hk (Std.LawfulEqCmp.compare_eq_iff_eq.1 heq).symm]
  case outgoing_size =>
    rw [houtgoing, hids]
    exact h.outgoing_size
  case incoming_size =>
    rw [hincoming, hids]
    exact h.incoming_size
  case successors_iff =>
    intro s' t'
    rw [mem_successors_addEdgeAt_of_none edge hnone (h.lt_outgoing_size hs)
      (h.lt_outgoing_size ht), h.successors_iff, hends, hleads, hexists, hnewLeads]
  case predecessors_iff =>
    intro s' t'
    rw [mem_predecessors_addEdgeAt_of_none edge hnone (h.lt_incoming_size hs)
      (h.lt_incoming_size ht), h.predecessors_iff, hends, hleads, hexists, hnewLeads]
  case successors_ascending =>
    exact (ascending_addEdgeAt_of_none edge hnone).1 h.successors_ascending
  case predecessors_ascending =>
    exact (ascending_addEdgeAt_of_none edge hnone).2 h.predecessors_ascending

theorem addEdgeAt (h : Coherent g) {s t : Nat} {edge : Edge}
    (hs : g.position? edge.source = some s) (ht : g.position? edge.target = some t) :
    Coherent (g.addEdgeAt s t edge) := by
  cases hn : g.edgeIndex[g.edgeKey s t]? with
  | none => exact h.addEdgeAt_of_none hs ht hn
  | some n =>
    have heq : g.addEdgeAt s t edge = { g with
        edges := g.edges.modify n fun e =>
          { e with attributes := e.attributes.merge edge.attributes } } := by
      simp only [HostGraph.addEdgeAt, hn]
    rw [heq]
    have hends := map_toList_modify Edge.ends
      (fun e => { e with attributes := e.attributes.merge edge.attributes })
      (fun _ => rfl) g.edges n
    exact h.of_shape rfl rfl hends rfl rfl rfl rfl

end Coherent

/-! ### Every call -/

/-- A vertex keeps its position. -/
theorem position?_addVertex_of_some {g : HostGraph} {x : String} {n : Nat}
    (h : g.position? x = some n) (id : String) (attributes : Attributes) :
    (g.addVertex id attributes).position? x = some n := by
  cases hid : g.position? id with
  | none =>
    rw [position?_addVertex_of_none attributes hid, if_neg, h]
    rintro rfl
    rw [hid] at h
    cases h
  | some m =>
    simp only [addVertex, hid]
    exact h

/-- An added vertex has a position. -/
theorem exists_position?_addVertex (g : HostGraph) (id : String) (attributes : Attributes) :
    ∃ n, (g.addVertex id attributes).position? id = some n := by
  cases hid : g.position? id with
  | none => exact ⟨_, (position?_addVertex_of_none attributes hid id).trans (if_pos rfl)⟩
  | some n => exact ⟨n, position?_addVertex_of_some hid id attributes⟩

/-- The ends of an edge are added before the edge is. -/
theorem addEdge_eq (g : HostGraph) (source target : String) (attributes : Attributes) :
    ∃ s t, ((g.addVertex source ∅).addVertex target ∅).position? source = some s ∧
      ((g.addVertex source ∅).addVertex target ∅).position? target = some t ∧
      g.addEdge source target attributes
        = ((g.addVertex source ∅).addVertex target ∅).addEdgeAt s t
            { source, target, attributes } := by
  obtain ⟨s, hs⟩ := exists_position?_addVertex g source ∅
  have hs' := position?_addVertex_of_some hs target ∅
  obtain ⟨t, ht⟩ := exists_position?_addVertex (g.addVertex source ∅) target ∅
  refine ⟨s, t, hs', ht, ?_⟩
  simp only [addEdge, hs', ht]

theorem Coherent.addEdge {g : HostGraph} (h : Coherent g) (source target : String)
    (attributes : Attributes) : Coherent (g.addEdge source target attributes) := by
  obtain ⟨s, t, hs, ht, heq⟩ := addEdge_eq g source target attributes
  rw [heq]
  exact ((h.addVertex source ∅).addVertex target ∅).addEdgeAt hs ht

theorem Coherent.mention {g : HostGraph} (h : Coherent g) (m : Mention) :
    Coherent (g.mention m) := by
  cases m with
  | vertex id attributes => exact h.addVertex id attributes
  | edge source target attributes => exact h.addEdge source target attributes

/-- Every graph that calls build is coherent. -/
theorem coherent_ofMentions (directed : Bool) (ms : List Mention) :
    Coherent (ofMentions directed ms) := by
  suffices h : ∀ g : HostGraph, Coherent g → Coherent (ms.foldl HostGraph.mention g) from
    h _ (Coherent.empty directed)
  induction ms with
  | nil => exact fun g hg => hg
  | cons m rest ih => exact fun g hg => ih _ (hg.mention m)

end HostGraph

end MotifQuery
