import MotifQuery.Proofs.Dict
import MotifQuery.Proofs.Graph.Calls
import MotifQuery.Proofs.Repeats

/-!
# `MotifQuery.Proofs.Graph.Plain`: a host graph as two plain lists

A plain graph has a list of vertices and a list of edges and nothing else. A call looks
through the whole list: what is there already takes the attributes, what is not comes last.

* `plain_ofMentions`: the lists of a host graph are those of the plain graph after the same
  calls.
* `PlainGraph.ids_ofMentions`, `PlainGraph.ends_ofMentions`: vertices and edges are listed
  in the order of first mention.
* `PlainGraph.vertexValues_ofMentions`, `PlainGraph.edgeValues_ofMentions`: an attribute
  has the value that was written last.
* `ofMentions_represents` puts this together with the indices of the host graph.
-/

set_option autoImplicit false

namespace MotifQuery

/-! ### Changing what is there or adding it last -/

/-- Changes the entries that are `same`; when there are none, `new` comes last. -/
def upsert {α : Type} (same : α → Bool) (change : α → α) (new : α) (xs : List α) : List α :=
  if xs.any same then xs.map fun x => if same x then change x else x else xs ++ [new]

section
variable {α β : Type} {same : α → Bool} {change : α → α} {new : α} {xs : List α}

/-- What holds of every entry after `upsert`: it holds of the changed ones, of those that
stay, and of the new one when that comes in. -/
theorem forall_mem_upsert {P : α → Prop} (hchange : ∀ x ∈ xs, same x → P (change x))
    (hstay : ∀ x ∈ xs, ¬ same x → P x) (hnew : (∀ x ∈ xs, ¬ same x) → P new) :
    ∀ x ∈ upsert same change new xs, P x := by
  intro x hx
  unfold upsert at hx
  split at hx
  · obtain ⟨y, hy, rfl⟩ := List.mem_map.1 hx
    split
    · next hs => exact hchange y hy hs
    · next hs => exact hstay y hy hs
  · next hany =>
    have hnone : ∀ y ∈ xs, ¬ same y := fun y hy hs => hany (List.any_eq_true.2 ⟨y, hy, hs⟩)
    rcases List.mem_append.1 hx with hx | hx
    · exact hstay x hx (hnone x hx)
    · exact List.mem_singleton.1 hx ▸ hnew hnone

/-- The keys after `upsert`, when a change keeps the key. -/
theorem map_upsert {key : α → β} (h : ∀ x, key (change x) = key x) :
    (upsert same change new xs).map key
      = if xs.any same then xs.map key else xs.map key ++ [key new] := by
  unfold upsert
  split
  · rw [List.map_map]
    refine List.map_congr_left fun x _ => ?_
    show key (if same x then change x else x) = key x
    split
    · exact h x
    · rfl
  · rw [List.map_append, List.map_singleton]

/-- Changing the entry at a position is `upsert` when that entry alone is `same`. -/
theorem modify_eq_upsert (change : α → α) (new : α) {n : Nat}
    (h : ∀ m x, xs[m]? = some x → (same x = true ↔ m = n)) (hn : n < xs.length) :
    xs.modify n change = upsert same change new xs := by
  have hany : xs.any same = true :=
    List.any_eq_true.2 ⟨xs[n], List.getElem_mem hn, (h n _ (List.getElem?_eq_getElem hn)).2 rfl⟩
  rw [upsert, if_pos hany]
  -- the entry at the position is the only one that is `same`
  refine List.ext_getElem? fun m => ?_
  rw [List.getElem?_modify, List.getElem?_map]
  cases hx : xs[m]? with
  | none => rfl
  | some x =>
    by_cases hm : n = m
    · simp [hm, (h m x hx).2 hm.symm]
    · have hs : ¬ same x := fun hs => hm ((h m x hx).1 hs).symm
      simp [hm, hs]

/-- Without a `same` entry `upsert` adds the new one. -/
theorem upsert_of_none (h : ∀ x ∈ xs, ¬ same x) : upsert same change new xs = xs ++ [new] := by
  refine if_neg fun hany => ?_
  obtain ⟨x, hx, hs⟩ := List.any_eq_true.1 hany
  exact h x hx hs

end

theorem sameEnds_comm {directed : Bool} {p q : String × String} :
    SameEnds directed p q ↔ SameEnds directed q p := by
  have hswap : p = q.swap ↔ q = p.swap :=
    ⟨fun h => h ▸ (Prod.swap_swap q).symm, fun h => h ▸ (Prod.swap_swap p).symm⟩
  exact or_congr eq_comm (and_congr_right fun _ => hswap)

theorem SameEnds.trans {directed : Bool} {p q r : String × String}
    (hpq : SameEnds directed p q) (hqr : SameEnds directed q r) : SameEnds directed p r := by
  rcases hpq with rfl | ⟨hd, rfl⟩
  · exact hqr
  · rcases hqr with rfl | ⟨-, rfl⟩
    · exact .inr ⟨hd, rfl⟩
    · exact .inl (Prod.swap_swap r)

/-! ### Plain graphs -/

/-- A graph as two plain lists. -/
structure PlainGraph where
  directed : Bool
  vertices : List Vertex := []
  edges : List Edge := []

/-- A vertex with more attributes. -/
def Vertex.absorb (attributes : Attributes) (v : Vertex) : Vertex :=
  { v with attributes := v.attributes.merge attributes }

/-- An edge with more attributes. -/
def Edge.absorb (attributes : Attributes) (e : Edge) : Edge :=
  { e with attributes := e.attributes.merge attributes }

namespace PlainGraph

/-- Gives the attributes to the vertex with an id, or lists a new vertex. -/
def addVertex (p : PlainGraph) (id : String) (attributes : Attributes) : PlainGraph :=
  { p with
    vertices := upsert (·.id == id) (Vertex.absorb attributes) { id, attributes } p.vertices }

/-- Lists the ends, then gives the attributes to the edge between them, or lists a new
edge. -/
def addEdge (p : PlainGraph) (source target : String) (attributes : Attributes) : PlainGraph :=
  let p := (p.addVertex source ∅).addVertex target ∅
  { p with
    edges := upsert (fun e => SameEnds p.directed e.ends (source, target))
      (Edge.absorb attributes) { source, target, attributes } p.edges }

/-- The graph after a call. -/
def mention (p : PlainGraph) : Mention → PlainGraph
  | .vertex id attributes => p.addVertex id attributes
  | .edge source target attributes => p.addEdge source target attributes

/-- The graph after a list of calls on the empty one. -/
def ofMentions (directed : Bool) (ms : List Mention) : PlainGraph :=
  ms.foldl mention { directed }

end PlainGraph

/-! ### What a list of calls says about vertices and edges -/

namespace Mention

/-- The vertex ids that a call mentions. -/
def ids : Mention → List String
  | .vertex id _ => [id]
  | .edge source target _ => [source, target]

/-- The ends of the edge that a call mentions. -/
def ends? : Mention → Option (String × String)
  | .vertex _ _ => none
  | .edge source target _ => some (source, target)

/-- The value that a call writes at an attribute of a vertex. -/
def vertexValue? (id name : String) : Mention → Option Json
  | .vertex id' attributes => if id' = id then attributes.get? name else none
  | .edge _ _ _ => none

/-- The value that a call writes at an attribute of an edge. -/
def edgeValue? (directed : Bool) (p : String × String) (name : String) : Mention → Option Json
  | .vertex _ _ => none
  | .edge source target attributes =>
    if SameEnds directed p (source, target) then attributes.get? name else none

end Mention

/-- The value that the last of the calls writing one writes. -/
def lastWritten (value? : Mention → Option Json) (ms : List Mention) : Option Json :=
  ms.reverse.findSome? value?

theorem lastWritten_concat (value? : Mention → Option Json) (ms : List Mention) (m : Mention) :
    lastWritten value? (ms ++ [m]) = (value? m).or (lastWritten value? ms) := by
  rw [lastWritten, List.reverse_concat, List.findSome?_cons]
  cases value? m <;> rfl

/-- What no call writes has no last value. -/
theorem lastWritten_eq_none {value? : Mention → Option Json} {ms : List Mention}
    (h : ∀ m ∈ ms, value? m = none) : lastWritten value? ms = none :=
  List.findSome?_eq_none_iff.2 fun m hm => h m (List.mem_reverse.1 hm)

namespace PlainGraph

/-- The vertex ids in order. -/
def ids (p : PlainGraph) : List String :=
  p.vertices.map Vertex.id

/-- The ends of the edges in order. -/
def ends (p : PlainGraph) : List (String × String) :=
  p.edges.map Edge.ends

theorem ofMentions_concat (directed : Bool) (ms : List Mention) (m : Mention) :
    ofMentions directed (ms ++ [m]) = (ofMentions directed ms).mention m :=
  List.foldl_concat _ _ _ _

@[simp]
theorem directed_mention (p : PlainGraph) (m : Mention) :
    (p.mention m).directed = p.directed := by
  cases m <;> rfl

theorem directed_ofMentions (directed : Bool) (ms : List Mention) :
    (ofMentions directed ms).directed = directed := by
  induction ms using List.reverseRecOn with
  | nil => rfl
  | append_singleton rest m ih => rw [ofMentions_concat, directed_mention, ih]

/-! #### The order of first mention -/

theorem ids_addVertex (p : PlainGraph) (id : String) (attributes : Attributes) :
    (p.addVertex id attributes).ids = if id ∈ p.ids then p.ids else p.ids ++ [id] := by
  have hany : p.vertices.any (fun v => v.id == id) = true ↔ id ∈ p.ids := by
    simp [ids]
  simp only [← hany]
  exact map_upsert fun _ => rfl

theorem mem_ids_addVertex {p : PlainGraph} {id : String} {attributes : Attributes}
    {x : String} : x ∈ (p.addVertex id attributes).ids ↔ x ∈ p.ids ∨ x = id := by
  rw [ids_addVertex]
  split
  · next hmem =>
    refine ⟨.inl, fun hx => ?_⟩
    rcases hx with hx | rfl
    · exact hx
    · exact hmem
  · rw [List.mem_append, List.mem_singleton]

theorem ids_mention (p : PlainGraph) (m : Mention) :
    (p.mention m).ids
      = m.ids.foldl (fun ids id => if id ∈ ids then ids else ids ++ [id]) p.ids := by
  cases m with
  | vertex id attributes => exact ids_addVertex p id attributes
  | edge source target attributes =>
    show ((p.addVertex source ∅).addVertex target ∅).ids = _
    rw [ids_addVertex, ids_addVertex]
    rfl

/-- Vertices are listed in the order of first mention. -/
theorem ids_ofMentions (directed : Bool) (ms : List Mention) :
    (ofMentions directed ms).ids = (ms.flatMap Mention.ids).eraseDups := by
  induction ms using List.reverseRecOn with
  | nil => rfl
  | append_singleton rest m ih =>
    rw [ofMentions_concat, ids_mention, ih, List.flatMap_append, List.flatMap_singleton,
      foldl_mention_eq_eraseDups]

theorem ends_mention (p : PlainGraph) (m : Mention) :
    (p.mention m).ends = match m.ends? with
      | none => p.ends
      | some q =>
        if p.ends.any (fun r => SameEnds p.directed q r) then p.ends else p.ends ++ [q] := by
  cases m with
  | vertex id attributes => rfl
  | edge source target attributes =>
    have hany : p.edges.any (fun e => SameEnds p.directed e.ends (source, target))
        = p.ends.any (fun r => SameEnds p.directed (source, target) r) := by
      rw [ends, List.any_map]
      exact congrArg _ (funext fun e => decide_eq_decide.2 sameEnds_comm)
    simp only [Mention.ends?]
    rw [← hany]
    exact map_upsert fun _ => rfl

/-- Edges are listed in the order of first mention. -/
theorem ends_ofMentions (directed : Bool) (ms : List Mention) :
    (ofMentions directed ms).ends
      = (ms.filterMap Mention.ends?).eraseDupsBy fun q r => SameEnds directed q r := by
  induction ms using List.reverseRecOn with
  | nil => rfl
  | append_singleton rest m ih =>
    rw [ofMentions_concat, ends_mention, ih, directed_ofMentions, List.filterMap_append]
    cases hm : m.ends? with
    | none => simp [hm]
    | some q => simp [hm, eraseDupsBy_concat]

/-! #### The value written last -/

/-- The attributes of the vertices are given by a function. -/
def VertexValues (p : PlainGraph) (value : String → String → Option Json) : Prop :=
  ∀ v ∈ p.vertices, ∀ name, v.attributes.get? name = value v.id name

/-- A mention of a vertex overrides what was written there before. -/
theorem VertexValues.addVertex {p : PlainGraph} {value : String → String → Option Json}
    (h : p.VertexValues value) {id : String} (attributes : Attributes)
    (hnew : id ∉ p.ids → ∀ name, value id name = none) :
    (p.addVertex id attributes).VertexValues fun x name =>
      (if id = x then attributes.get? name else none).or (value x name) := by
  -- the vertex that was there, the other vertices, and the new one
  refine forall_mem_upsert (fun v hv hs name => ?_) (fun v hv hs name => ?_)
    (fun hnone name => ?_)
  · have hid : id = v.id := (beq_iff_eq.1 hs).symm
    show (v.attributes.merge attributes).get? name
      = (if id = v.id then attributes.get? name else none).or (value v.id name)
    rw [Dict.get?_merge, if_pos hid, h v hv]
  · have hid : id ≠ v.id := fun heq => hs (beq_iff_eq.2 heq.symm)
    simp only [if_neg hid, h v hv, Option.none_or]
  · have hid : id ∉ p.ids := fun hmem => by
      obtain ⟨v, hv, hvid⟩ := List.mem_map.1 hmem
      exact hnone v hv (beq_iff_eq.2 hvid)
    simp only [if_pos, hnew hid, Option.or_none]

/-- A mention without attributes writes nothing. -/
theorem VertexValues.addVertex_empty {p : PlainGraph} {value : String → String → Option Json}
    (h : p.VertexValues value) {id : String}
    (hnew : id ∉ p.ids → ∀ name, value id name = none) :
    (p.addVertex id ∅).VertexValues value := by
  have hvalues := h.addVertex ∅ hnew
  simpa only [Dict.get?_empty, ite_self, Option.none_or] using hvalues

/-- A vertex attribute has the value that was written last. -/
theorem vertexValues_ofMentions (directed : Bool) (ms : List Mention) :
    (ofMentions directed ms).VertexValues fun id name =>
      lastWritten (Mention.vertexValue? id name) ms := by
  induction ms using List.reverseRecOn with
  | nil => exact fun v hv => nomatch hv
  | append_singleton rest m ih =>
    -- before its first mention a vertex has no value
    have hnew : ∀ id, id ∉ (ofMentions directed rest).ids →
        ∀ name, lastWritten (Mention.vertexValue? id name) rest = none := by
      intro id hid name
      rw [ids_ofMentions, List.mem_eraseDups, List.mem_flatMap] at hid
      refine lastWritten_eq_none fun m hm => ?_
      cases m with
      | edge => rfl
      | vertex id' attributes =>
        refine if_neg ?_
        rintro rfl
        exact hid ⟨_, hm, List.mem_singleton_self _⟩
    rw [ofMentions_concat]
    simp only [lastWritten_concat]
    cases m with
    | vertex id attributes => exact ih.addVertex attributes (hnew id)
    | edge source target attributes =>
      refine (ih.addVertex_empty (hnew source)).addVertex_empty fun htarget => hnew target ?_
      exact fun hmem => htarget (mem_ids_addVertex.2 (.inl hmem))

/-- The attributes of the edges are given by a function of their ends. -/
def EdgeValues (p : PlainGraph) (value : String × String → String → Option Json) : Prop :=
  ∀ e ∈ p.edges, ∀ name, e.attributes.get? name = value e.ends name

/-- A mention of an edge overrides what was written there before. -/
theorem EdgeValues.addEdge {p : PlainGraph} {value : String × String → String → Option Json}
    (h : p.EdgeValues value) (source target : String) (attributes : Attributes)
    (hnew : (∀ q ∈ p.ends, ¬ SameEnds p.directed q (source, target)) →
      ∀ name, value (source, target) name = none) :
    (p.addEdge source target attributes).EdgeValues fun q name =>
      (if SameEnds p.directed q (source, target) then attributes.get? name else none).or
        (value q name) := by
  -- the edge that was there, the other edges, and the new one
  refine forall_mem_upsert (fun e he hs name => ?_) (fun e he hs name => ?_)
    (fun hnone name => ?_)
  · have hsame : SameEnds p.directed e.ends (source, target) := of_decide_eq_true hs
    show (e.attributes.merge attributes).get? name
      = (if SameEnds p.directed e.ends (source, target) then attributes.get? name
          else none).or (value e.ends name)
    rw [Dict.get?_merge, if_pos hsame, h e he]
  · have hsame : ¬ SameEnds p.directed e.ends (source, target) := fun hsame =>
      hs (decide_eq_true hsame)
    simp only [if_neg hsame, h e he, Option.none_or]
  · have hno : ∀ q ∈ p.ends, ¬ SameEnds p.directed q (source, target) := fun q hq hsame => by
      obtain ⟨e, he, rfl⟩ := List.mem_map.1 hq
      exact hnone e he (decide_eq_true hsame)
    have hself : SameEnds p.directed (source, target) (source, target) := .inl rfl
    have hends : (Edge.mk source target attributes).ends = (source, target) := rfl
    simp only [hends, if_pos hself, hnew hno, Option.or_none]

/-- An edge attribute has the value that was written last. -/
theorem edgeValues_ofMentions (directed : Bool) (ms : List Mention) :
    (ofMentions directed ms).EdgeValues fun q name =>
      lastWritten (Mention.edgeValue? directed q name) ms := by
  induction ms using List.reverseRecOn with
  | nil => exact fun e he => nomatch he
  | append_singleton rest m ih =>
    -- before its first mention an edge has no value
    have hnew : ∀ q, (∀ r ∈ (ofMentions directed rest).ends, ¬ SameEnds directed r q) →
        ∀ name, lastWritten (Mention.edgeValue? directed q name) rest = none := by
      intro q hq name
      refine lastWritten_eq_none fun m hm => ?_
      cases m with
      | vertex => rfl
      | edge source target attributes =>
        refine if_neg fun hsame => ?_
        have hmem : (source, target) ∈ rest.filterMap Mention.ends? :=
          List.mem_filterMap.2 ⟨_, hm, rfl⟩
        obtain ⟨r, hr, hrel⟩ := exists_mem_eraseDupsBy
          (r := fun q r => SameEnds directed q r) (fun _ => decide_eq_true (.inl rfl)) hmem
        rw [← ends_ofMentions] at hr
        exact hq r hr (sameEnds_comm.1 (hsame.trans (of_decide_eq_true hrel)))
    rw [ofMentions_concat]
    simp only [lastWritten_concat]
    cases m with
    | vertex id attributes => exact ih
    | edge source target attributes =>
      have hvalues := ih.addEdge source target attributes
        (by rw [directed_ofMentions]; exact hnew _)
      rw [directed_ofMentions] at hvalues
      exact hvalues

end PlainGraph

/-! ### The lists of a host graph -/

namespace HostGraph

/-- The lists of a host graph. -/
def plain (g : HostGraph) : PlainGraph :=
  { directed := g.directed, vertices := g.vertices.toList, edges := g.edges.toList }

theorem plain_addVertex {g : HostGraph} (h : Coherent g) (id : String)
    (attributes : Attributes) :
    (g.addVertex id attributes).plain = g.plain.addVertex id attributes := by
  cases hid : g.position? id with
  | none =>
    have hnew : ∀ v ∈ g.vertices.toList, ¬ (v.id == id) := fun v hv heq =>
      h.not_mem_ids hid (List.mem_map.2 ⟨v, hv, beq_iff_eq.1 heq⟩)
    simp [plain, PlainGraph.addVertex, addVertex, hid, upsert_of_none hnew]
  | some n =>
    have hn := (h.position_iff id n).1 hid
    simp only [ids, List.getElem?_map, Option.map_eq_some_iff] at hn
    obtain ⟨v, hv, hvid⟩ := hn
    -- ids are distinct, so only the vertex at the position has the id
    have honly : ∀ m w, g.vertices.toList[m]? = some w → ((w.id == id) = true ↔ m = n) := by
      intro m w hw
      have hm := (h.position_iff w.id m).2 (by simp [ids, hw])
      rw [beq_iff_eq]
      constructor
      · rintro rfl
        exact Option.some.inj (hm.symm.trans hid)
      · rintro rfl
        exact h.position?_inj hm hid
    have hmodify := modify_eq_upsert (Vertex.absorb attributes)
      { id, attributes } honly (List.getElem?_eq_some_iff.1 hv).1
    simp only [plain, PlainGraph.addVertex, addVertex, hid, Array.toList_modify]
    rw [← hmodify]
    rfl

theorem plain_addEdgeAt {g : HostGraph} (h : Coherent g) {s t : Nat} {e : Edge}
    (hs : g.position? e.source = some s) (ht : g.position? e.target = some t) :
    (g.addEdgeAt s t e).plain = { g.plain with
      edges := upsert (fun f => SameEnds g.directed f.ends e.ends) (Edge.absorb e.attributes) e
        g.plain.edges } := by
  have hkey : g.key? e.ends = some (g.edgeKey s t) := key?_eq_some_iff.2 (.inl ⟨hs, ht⟩)
  -- an edge is the one looked for exactly when it has the key
  have hsame : ∀ f, SameEnds g.directed f e.ends ↔ g.key? f = some (g.edgeKey s t) := by
    intro f
    rw [← hkey]
    refine ⟨Coherent.key?_eq_of_sameEnds, fun hf => h.sameEnds_of_key? ?_ hf⟩
    rw [hf, hkey]
    rfl
  cases hn : g.edgeIndex[g.edgeKey s t]? with
  | none =>
    have hnew : ∀ f ∈ g.edges.toList, ¬ decide (SameEnds g.directed f.ends e.ends) := by
      intro f hf heq
      obtain ⟨m, hm⟩ := List.mem_iff_getElem?.1 hf
      have hindex := (h.index_iff (g.edgeKey s t) m).2
        (by simpa [ends, hm] using (hsame f.ends).1 (of_decide_eq_true heq))
      rw [hn] at hindex
      cases hindex
    have hdirected := (addEdgeAt_of_none_shape e hn).1
    have hvertices : (g.addEdgeAt s t e).vertices = g.vertices := by
      rw [addEdgeAt_of_none e hn]
      split <;> rfl
    have hedges : (g.addEdgeAt s t e).edges = g.edges.push e := by
      rw [addEdgeAt_of_none e hn]
      split <;> rfl
    simp only [plain, hdirected, hvertices, hedges, upsert_of_none hnew, Array.toList_push]
  | some n =>
    have honly : ∀ m f, g.edges.toList[m]? = some f →
        (decide (SameEnds g.directed f.ends e.ends) = true ↔ m = n) := by
      intro m f hf
      rw [decide_eq_true_iff, hsame]
      have hm := h.index_iff (g.edgeKey s t) m
      simp only [ends, List.getElem?_map, hf, Option.map_some, Option.bind_some] at hm
      rw [← hm, hn, Option.some_inj]
      exact eq_comm
    have hlt : n < g.edges.toList.length := by
      have hbind := (h.index_iff _ n).1 hn
      obtain ⟨p, hp, -⟩ := Option.bind_eq_some_iff.1 hbind
      simpa [ends] using (List.getElem?_eq_some_iff.1 hp).1
    have hmodify := modify_eq_upsert (Edge.absorb e.attributes) e honly hlt
    simp only [plain, addEdgeAt, hn, Array.toList_modify]
    rw [← hmodify]
    rfl

theorem plain_addEdge {g : HostGraph} (h : Coherent g) (source target : String)
    (attributes : Attributes) :
    (g.addEdge source target attributes).plain = g.plain.addEdge source target attributes := by
  obtain ⟨s, t, hs, ht, heq⟩ := addEdge_eq g source target attributes
  -- the ends are added first, and then both have a position
  have hsource := h.addVertex source ∅
  have htarget := hsource.addVertex target ∅
  rw [heq, plain_addEdgeAt htarget hs ht, plain_addVertex hsource, plain_addVertex h]
  have hdirected : ((g.addVertex source ∅).addVertex target ∅).directed = g.directed := by
    rw [show ∀ g' : HostGraph, g'.directed = g'.plain.directed from fun _ => rfl,
      plain_addVertex hsource, plain_addVertex h]
    rfl
  rw [hdirected]
  rfl

theorem plain_mention {g : HostGraph} (h : Coherent g) (m : Mention) :
    (g.mention m).plain = g.plain.mention m := by
  cases m with
  | vertex id attributes => exact plain_addVertex h id attributes
  | edge source target attributes => exact plain_addEdge h source target attributes

/-- The lists of a host graph are those of the plain graph after the same calls. -/
theorem plain_ofMentions (directed : Bool) (ms : List Mention) :
    (ofMentions directed ms).plain = PlainGraph.ofMentions directed ms := by
  suffices h : ∀ g : HostGraph, Coherent g →
      (ms.foldl HostGraph.mention g).plain = ms.foldl PlainGraph.mention g.plain from
    h _ (Coherent.empty directed)
  induction ms with
  | nil => exact fun _ _ => rfl
  | cons m rest ih =>
    intro g hg
    rw [List.foldl_cons, List.foldl_cons, ih _ (hg.mention m), plain_mention hg m]

/-- A look-up by id gives exactly the vertex with that id. -/
theorem Coherent.vertex?_eq_some_iff {g : HostGraph} (h : Coherent g) {id : String}
    {v : Vertex} : g.vertex? id = some v ↔ v ∈ g.vertices ∧ v.id = id := by
  unfold vertex?
  rw [Option.bind_eq_some_iff]
  constructor
  · rintro ⟨n, hn, hv⟩
    obtain ⟨w, hw, hid⟩ := h.position?_eq_some_iff.1 hn
    rw [hw] at hv
    cases hv
    exact ⟨Array.mem_of_getElem? hw, hid⟩
  · rintro ⟨hmem, hid⟩
    obtain ⟨n, hn⟩ := Array.getElem?_of_mem hmem
    exact ⟨n, h.position?_eq_some_iff.2 ⟨v, hn, hid⟩, hn⟩

/-- What a host graph says about the calls that built it. -/
structure Represents (g : HostGraph) (directed : Bool) (ms : List Mention) : Prop where
  /-- The lists are those of the plain graph. -/
  plain : g.plain = PlainGraph.ofMentions directed ms
  ids_nodup : g.ids.Nodup
  /-- The vertex index maps every id to its position, and nothing else. -/
  position_iff : ∀ id n, g.position? id = some n ↔ g.ids[n]? = some id
  /-- The ends of an edge are vertices. -/
  ends_mem : ∀ p ∈ g.ends, p.1 ∈ g.ids ∧ p.2 ∈ g.ids
  /-- No two edges join the same ends. -/
  ends_distinct : g.ends.Pairwise fun p q => ¬ SameEnds directed p q
  /-- The edge index maps the key of every edge to its position, and nothing else. -/
  index_iff : ∀ key n, g.edgeIndex[key]? = some n ↔ ∃ p, g.ends[n]? = some p ∧ g.key? p = some key
  /-- Successors and predecessors say the same. -/
  neighbours_iff : ∀ s t, t ∈ g.successors s ↔ s ∈ g.predecessors t
  /-- A successor is where some edge leads. -/
  successors_iff : ∀ s t, t ∈ g.successors s ↔ ∃ p ∈ g.ends, g.Leads p s t
  /-- Vertices stand in the order of first mention. -/
  ids_order : g.ids = (ms.flatMap Mention.ids).eraseDups
  /-- Edges stand in the order of first mention. -/
  ends_order : g.ends = (ms.filterMap Mention.ends?).eraseDupsBy fun p q => SameEnds directed p q
  /-- A vertex attribute has the value written last. -/
  vertex_values : ∀ v ∈ g.vertices, ∀ name,
    v.attributes.get? name = lastWritten (Mention.vertexValue? v.id name) ms
  /-- An edge attribute has the value written last. -/
  edge_values : ∀ e ∈ g.edges, ∀ name,
    e.attributes.get? name = lastWritten (Mention.edgeValue? directed e.ends name) ms
  vertex?_iff : ∀ id v, g.vertex? id = some v ↔ v ∈ g.vertices ∧ v.id = id
  /-- A look-up between two positions gives the edge that leads from one to the other. -/
  edgeBetween?_iff : ∀ s t e, g.edgeBetween? s t = some e ↔ e ∈ g.edges ∧ g.Leads e.ends s t

/-- After any calls on the empty graph the lists are those of the plain graph, and both
indices, both tables of neighbours and all look-ups agree with them. -/
theorem ofMentions_represents (directed : Bool) (ms : List Mention) :
    (ofMentions directed ms).Represents directed ms := by
  have hcoherent := coherent_ofMentions directed ms
  have hplain := plain_ofMentions directed ms
  have hdirected : (ofMentions directed ms).directed = directed :=
    (congrArg PlainGraph.directed hplain).trans (PlainGraph.directed_ofMentions directed ms)
  constructor
  · exact hplain
  · exact hcoherent.nodup_ids
  · exact hcoherent.position_iff
  · exact fun p hp => hcoherent.ends_mem hp
  · have hends := hcoherent.pairwise_ends
    rwa [hdirected] at hends
  · intro key n
    rw [hcoherent.index_iff, Option.bind_eq_some_iff]
  · intro s t
    rw [hcoherent.successors_iff, hcoherent.predecessors_iff]
  · exact hcoherent.successors_iff
  · exact (congrArg PlainGraph.ids hplain).trans (PlainGraph.ids_ofMentions directed ms)
  · exact (congrArg PlainGraph.ends hplain).trans (PlainGraph.ends_ofMentions directed ms)
  · intro v hv
    refine PlainGraph.vertexValues_ofMentions directed ms v ?_
    rw [← hplain]
    exact hv.val
  · intro e he
    refine PlainGraph.edgeValues_ofMentions directed ms e ?_
    rw [← hplain]
    exact he.val
  · exact fun id v => hcoherent.vertex?_eq_some_iff
  · exact fun s t e => hcoherent.edgeBetween?_eq_some_iff

end HostGraph

end MotifQuery
