import Mathlib.Data.List.Sort
import MotifQuery.Proofs.Graph.Plain

/-!
# `MotifQuery.Proofs.Graph.Rebuild`: a graph mentioned again

Mentioning the vertices of a graph and then its edges, each with its attributes, builds the
same lists again: `ofMentions_mentions`. It needs what every host graph has, that no id
stands twice, that no two edges have the same ends and that the ends are vertices.

The tables of a host graph are determined by these lists, since neighbours come by ascending
position (`HostGraph.Coherent.eq_of_plain`). So `HostGraph.ofPlain_rebuilds`: a host graph is
built again from its parts, tables included, and parts of any shape are settled by being
built once.
-/

set_option autoImplicit false

namespace MotifQuery

/-- The call that mentions a vertex with its attributes. -/
def Vertex.mention (v : Vertex) : Mention :=
  .vertex v.id v.attributes

/-- The call that mentions an edge with its attributes. -/
def Edge.mention (e : Edge) : Mention :=
  .edge e.source e.target e.attributes

namespace PlainGraph

/-- The calls that mention every vertex and then every edge. -/
def mentions (p : PlainGraph) : List Mention :=
  p.vertices.map Vertex.mention ++ p.edges.map Edge.mention

/-- The lists of a simple graph. -/
structure Simple (p : PlainGraph) : Prop where
  ids_nodup : p.ids.Nodup
  ends_distinct : p.ends.Pairwise fun q r => ¬ SameEnds p.directed q r
  ends_mem : ∀ q ∈ p.ends, q.1 ∈ p.ids ∧ q.2 ∈ p.ids

theorem addVertex_of_not_mem {p : PlainGraph} {v : Vertex} (h : v.id ∉ p.ids) :
    p.addVertex v.id v.attributes = { p with vertices := p.vertices ++ [v] } := by
  have hnew : ∀ w ∈ p.vertices, ¬ (w.id == v.id) = true := by
    intro w hw heq
    exact h (List.mem_map.2 ⟨w, hw, beq_iff_eq.1 heq⟩)
  rw [addVertex, upsert_of_none hnew]

/-- Naming a vertex without attributes changes nothing when it is there. -/
theorem addVertex_empty {p : PlainGraph} {id : String} (h : id ∈ p.ids) : p.addVertex id ∅ = p := by
  obtain ⟨v, hv, hid⟩ := List.mem_map.1 h
  have hany : p.vertices.any (·.id == id) = true :=
    List.any_eq_true.2 ⟨v, hv, beq_iff_eq.2 hid⟩
  have hstay : p.vertices.map (fun w => if w.id == id then w.absorb ∅ else w) = p.vertices := by
    refine List.map_id'' (fun w => ?_) _
    split <;> rfl
  rw [addVertex, upsert, if_pos hany, hstay]

theorem addEdge_of_distinct {p : PlainGraph} {e : Edge} (hsource : e.source ∈ p.ids)
    (htarget : e.target ∈ p.ids) (h : ∀ q ∈ p.ends, ¬ SameEnds p.directed q e.ends) :
    p.addEdge e.source e.target e.attributes = { p with edges := p.edges ++ [e] } := by
  have hnew : ∀ f ∈ p.edges, ¬ decide (SameEnds p.directed f.ends (e.source, e.target)) = true := by
    intro f hf hsame
    exact h f.ends (List.mem_map_of_mem hf) (of_decide_eq_true hsame)
  rw [addEdge, addVertex_empty hsource, addVertex_empty htarget, upsert_of_none hnew]

/-- New vertices come last, in their order. -/
theorem foldl_mention_vertices {p : PlainGraph} {vs : List Vertex}
    (h : (p.ids ++ vs.map Vertex.id).Nodup) :
    (vs.map Vertex.mention).foldl mention p = { p with vertices := p.vertices ++ vs } := by
  -- the vertices that are listed so far are part of the assumption
  induction vs generalizing p with
  | nil => simp
  | cons v rest ih =>
    have hv : v.id ∉ p.ids := fun hmem =>
      (List.nodup_append.1 h).2.2 v.id hmem v.id List.mem_cons_self rfl
    rw [List.map_cons, List.foldl_cons]
    show (rest.map Vertex.mention).foldl mention (p.addVertex v.id v.attributes) = _
    rw [addVertex_of_not_mem hv, ih]
    · simp
    · have hids : ids { p with vertices := p.vertices ++ [v] } = p.ids ++ [v.id] := by
        rw [ids, List.map_append]
        rfl
      rw [hids, List.append_assoc]
      exact h

/-- New edges between vertices that are there come last, in their order. -/
theorem foldl_mention_edges {p : PlainGraph} {es : List Edge}
    (hends : (p.ends ++ es.map Edge.ends).Pairwise fun q r => ¬ SameEnds p.directed q r)
    (hmem : ∀ e ∈ es, e.source ∈ p.ids ∧ e.target ∈ p.ids) :
    (es.map Edge.mention).foldl mention p = { p with edges := p.edges ++ es } := by
  -- the ends are listed already, so only the list of edges grows
  induction es generalizing p with
  | nil => simp
  | cons e rest ih =>
    obtain ⟨hsource, htarget⟩ := hmem e List.mem_cons_self
    have hnew : ∀ q ∈ p.ends, ¬ SameEnds p.directed q e.ends := fun q hq =>
      (List.pairwise_append.1 hends).2.2 q hq e.ends List.mem_cons_self
    rw [List.map_cons, List.foldl_cons]
    show (rest.map Edge.mention).foldl mention (p.addEdge e.source e.target e.attributes) = _
    rw [addEdge_of_distinct hsource htarget hnew, ih]
    · simp
    · have hlist : ends { p with edges := p.edges ++ [e] } = p.ends ++ [e.ends] := by
        rw [ends, List.map_append]
        rfl
      rw [hlist, List.append_assoc]
      exact hends
    · exact fun f hf => hmem f (List.mem_cons_of_mem e hf)

/-- Mentioning all vertices and then all edges of a simple graph builds it again. -/
theorem ofMentions_mentions {p : PlainGraph} (h : p.Simple) :
    ofMentions p.directed p.mentions = p := by
  have hvertices : (p.vertices.map Vertex.mention).foldl mention { directed := p.directed }
      = { directed := p.directed, vertices := p.vertices } :=
    foldl_mention_vertices h.ids_nodup
  rw [ofMentions, mentions, List.foldl_append, hvertices]
  refine foldl_mention_edges h.ends_distinct fun e he => ?_
  exact h.ends_mem e.ends (List.mem_map_of_mem he)

end PlainGraph

namespace HostGraph

/-- The lists of every graph that calls build are those of a simple graph. -/
theorem simple_ofMentions (directed : Bool) (ms : List Mention) :
    (HostGraph.ofMentions directed ms).plain.Simple where
  ids_nodup := (coherent_ofMentions directed ms).nodup_ids
  ends_distinct := (coherent_ofMentions directed ms).pairwise_ends
  ends_mem := fun _ hq => (coherent_ofMentions directed ms).ends_mem hq

/-! ### Indices and tables from the lists -/

/-- A table of neighbours is determined by its size and the rows that are read from it. -/
theorem eq_of_rows {rows rows' : Array (List Nat)} (hsize : rows.size = rows'.size)
    (hrows : ∀ n : Nat, (rows[n]?).getD [] = (rows'[n]?).getD []) : rows = rows' := by
  refine Array.ext hsize fun n hn hn' => ?_
  have hrow := hrows n
  rwa [Array.getElem?_eq_getElem hn, Array.getElem?_eq_getElem hn'] at hrow

/-- Two coherent graphs with the same lists are one graph: the indices and the tables say no more
than the lists do. -/
theorem Coherent.eq_of_plain {g g' : HostGraph} (h : Coherent g) (h' : Coherent g')
    (hplain : g.plain = g'.plain) : g = g' := by
  have hdirected : g.directed = g'.directed := congrArg PlainGraph.directed hplain
  have hvertices : g.vertices = g'.vertices :=
    Array.toList_inj.1 (congrArg PlainGraph.vertices hplain)
  have hedges : g.edges = g'.edges := Array.toList_inj.1 (congrArg PlainGraph.edges hplain)
  have hids : g.ids = g'.ids := congrArg PlainGraph.ids hplain
  have hends : g.ends = g'.ends := congrArg PlainGraph.ends hplain
  have hposition : g.position? = g'.position? := by
    funext id
    ext n
    rw [h.position_iff, h'.position_iff, hids]
  have hvertexIndex : g.vertexIndex = g'.vertexIndex :=
    Std.ExtTreeMap.ext_getElem? fun id => congrFun hposition id
  -- keys and neighbours are told by positions, so they agree as well
  have hkey : g.key? = g'.key? := key?_congr hposition hdirected
  have hleads : g.Leads = g'.Leads := leads_congr hposition hdirected
  have hedgeIndex : g.edgeIndex = g'.edgeIndex := by
    refine Std.ExtTreeMap.ext_getElem? fun key => ?_
    ext n
    rw [h.index_iff, h'.index_iff, hends, hkey]
  have hsuccessors : g.successors = g'.successors := by
    funext n
    refine (h.successors_ascending n).eq_of_mem_iff (h'.successors_ascending n) fun t => ?_
    rw [h.successors_iff, h'.successors_iff, hends, hleads]
  have hpredecessors : g.predecessors = g'.predecessors := by
    funext n
    refine (h.predecessors_ascending n).eq_of_mem_iff (h'.predecessors_ascending n) fun s => ?_
    rw [h.predecessors_iff, h'.predecessors_iff, hends, hleads]
  have houtgoing : g.outgoing = g'.outgoing :=
    eq_of_rows (by rw [h.outgoing_size, h'.outgoing_size, hids]) (congrFun hsuccessors)
  have hincoming : g.incoming = g'.incoming :=
    eq_of_rows (by rw [h.incoming_size, h'.incoming_size, hids]) (congrFun hpredecessors)
  cases g
  cases g'
  simp only at hdirected hvertices hedges hvertexIndex hedgeIndex houtgoing hincoming
  rw [hdirected, hvertices, hedges, hvertexIndex, hedgeIndex, houtgoing, hincoming]

/-! ### Graphs from their lists -/

/-- The host graph that is built from two lists. -/
def ofPlain (p : PlainGraph) : HostGraph :=
  ofParts p.directed p.vertices p.edges

/-- Building from two lists is mentioning the vertices and then the edges. -/
theorem ofPlain_eq_ofMentions (p : PlainGraph) :
    ofPlain p = ofMentions p.directed p.mentions := by
  rw [ofMentions, PlainGraph.mentions, List.foldl_append, List.foldl_map, List.foldl_map]
  rfl

/-- The lists of a graph that calls build are all that it takes to build it again. -/
theorem ofPlain_plain_ofMentions (directed : Bool) (ms : List Mention) :
    ofPlain (ofMentions directed ms).plain = ofMentions directed ms := by
  have hsame : (ofPlain (ofMentions directed ms).plain).plain = (ofMentions directed ms).plain := by
    rw [ofPlain_eq_ofMentions, plain_ofMentions]
    exact PlainGraph.ofMentions_mentions (simple_ofMentions directed ms)
  rw [ofPlain_eq_ofMentions] at hsame ⊢
  exact (coherent_ofMentions _ _).eq_of_plain (coherent_ofMentions directed ms) hsame

/-- Every graph that calls build is equal, in its lists, its indices and its tables of neighbours,
to the graph that is built again from its lists. And whatever two lists a graph is built from, with
repeats, ends that no vertex has or edges named twice, building once and building again from what
came of it give one graph. -/
theorem ofPlain_rebuilds :
    (∀ (directed : Bool) (ms : List Mention),
      ofPlain (ofMentions directed ms).plain = ofMentions directed ms) ∧
    ∀ p : PlainGraph, ofPlain (ofPlain p).plain = ofPlain p := by
  refine ⟨ofPlain_plain_ofMentions, fun p => ?_⟩
  rw [ofPlain_eq_ofMentions p]
  exact ofPlain_plain_ofMentions p.directed p.mentions

end HostGraph

end MotifQuery
