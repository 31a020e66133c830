import Mathlib.Data.List.Nodup
import MotifQuery.Proofs.Graph.Rebuild
import MotifQuery.Proofs.Number.Integer

/-!
# `MotifQuery.Proofs.Graph.Complete`: complete graphs

`HostGraph.complete` mentions its vertices one after the other and then each of its edges, all
of them for the first time. So its lists are those of `PlainGraph.complete` (`plain_complete`):
the vertex `natText i` stands at position `i` (`position?_complete`), and between any two
positions leads an edge, whether the graph is directed or not (`exists_edgeBetween?_complete`).
-/

set_option autoImplicit false

namespace MotifQuery

open Number

/-! ### The lists of a complete graph -/

namespace PlainGraph

/-- Is there an edge that names the first number before the second? Without directions the lower
one comes first. -/
def Joined (directed : Bool) (i j : Nat) : Prop :=
  i ≠ j ∧ (directed = true ∨ i < j)

instance (directed : Bool) (i j : Nat) : Decidable (Joined directed i j) :=
  inferInstanceAs (Decidable (_ ∧ _))

/-- Of two numbers the one or the other is named first, and only in a directed graph each. -/
theorem joined_or_joined (directed : Bool) {i j : Nat} (h : i ≠ j) :
    Joined directed i j ∨ directed = false ∧ Joined directed j i := by
  unfold Joined
  cases directed
  · simp
    omega
  · simp [h]

/-- No edge is named twice. -/
theorem Joined.eq_of_sameEnds {directed : Bool} {i j s t : Nat} (hij : Joined directed i j)
    (hst : Joined directed s t)
    (h : SameEnds directed (natText i, natText j) (natText s, natText t)) : i = s ∧ j = t := by
  rcases h with heq | ⟨rfl, heq⟩
  · obtain ⟨his, hjt⟩ := Prod.mk.inj heq
    exact ⟨natText_inj his, natText_inj hjt⟩
  · -- without directions both name the lower number first
    obtain ⟨hit, hjs⟩ := Prod.mk.inj heq
    have hit := natText_inj hit
    have hjs := natText_inj hjs
    have hij := hij.2.resolve_left Bool.false_ne_true
    have hst := hst.2.resolve_left Bool.false_ne_true
    omega

/-- The edges from a number to those below `n` that it is named before. -/
def completeEdges (n : Nat) (directed : Bool) (i : Nat) : List Edge :=
  ((List.range n).filter fun j => Joined directed i j).map fun j =>
    { source := natText i, target := natText j }

/-- The complete graph as two lists. -/
def complete (n : Nat) (directed : Bool) : PlainGraph where
  directed := directed
  vertices := (List.range n).map fun i => { id := natText i }
  edges := (List.range n).flatMap (completeEdges n directed)

variable {n : Nat} {directed : Bool}

theorem ids_complete : (complete n directed).ids = (List.range n).map natText := by
  rw [ids, complete, List.map_map]
  rfl

theorem mem_edges_complete_iff {e : Edge} : e ∈ (complete n directed).edges ↔
    ∃ i < n, ∃ j < n, Joined directed i j ∧ { source := natText i, target := natText j } = e := by
  simp only [complete, completeEdges, List.mem_flatMap, List.mem_map, List.mem_filter,
    List.mem_range, decide_eq_true_eq, and_assoc]

theorem simple_complete : (complete n directed).Simple where
  ids_nodup := by
    rw [ids_complete]
    exact List.nodup_range.map fun i j => natText_inj
  ends_distinct := by
    rw [ends, complete, List.map_flatMap, List.pairwise_flatMap]
    constructor
    · intro i _
      rw [completeEdges, List.map_map, List.pairwise_map]
      refine (List.nodup_range.filter _).imp_of_mem fun {j k} hj hk hne hsame => hne ?_
      have hj := of_decide_eq_true (List.mem_filter.1 hj).2
      have hk := of_decide_eq_true (List.mem_filter.1 hk).2
      exact (hj.eq_of_sameEnds hk hsame).2
    · refine List.nodup_range.imp fun {i s} hne p hp q hq hsame => hne ?_
      obtain ⟨e, he, rfl⟩ := List.mem_map.1 hp
      obtain ⟨f, hf, rfl⟩ := List.mem_map.1 hq
      obtain ⟨j, hj, rfl⟩ := List.mem_map.1 he
      obtain ⟨t, ht, rfl⟩ := List.mem_map.1 hf
      have hj := of_decide_eq_true (List.mem_filter.1 hj).2
      have ht := of_decide_eq_true (List.mem_filter.1 ht).2
      exact (hj.eq_of_sameEnds ht hsame).1
  ends_mem := by
    intro q hq
    obtain ⟨e, he, rfl⟩ := List.mem_map.1 hq
    obtain ⟨i, hi, j, hj, -, rfl⟩ := mem_edges_complete_iff.1 he
    rw [ids_complete]
    exact ⟨List.mem_map_of_mem (List.mem_range.2 hi), List.mem_map_of_mem (List.mem_range.2 hj)⟩

end PlainGraph

namespace HostGraph

theorem complete_eq_ofMentions (n : Nat) (directed : Bool) :
    complete n directed = ofMentions directed (PlainGraph.complete n directed).mentions := by
  simp only [ofMentions, PlainGraph.mentions, PlainGraph.complete, PlainGraph.completeEdges,
    List.foldl_append, List.foldl_map, List.foldl_flatMap, List.foldl_filter, decide_eq_true_eq]
  rfl

theorem coherent_complete (n : Nat) (directed : Bool) : (complete n directed).Coherent := by
  rw [complete_eq_ofMentions]
  exact coherent_ofMentions directed _

/-- The lists of a complete graph. -/
theorem plain_complete (n : Nat) (directed : Bool) :
    (complete n directed).plain = PlainGraph.complete n directed := by
  rw [complete_eq_ofMentions, plain_ofMentions]
  exact PlainGraph.ofMentions_mentions PlainGraph.simple_complete

theorem ids_complete (n : Nat) (directed : Bool) :
    (complete n directed).ids = (List.range n).map natText :=
  (congrArg PlainGraph.ids (plain_complete n directed)).trans PlainGraph.ids_complete

theorem vertexCount_complete (n : Nat) (directed : Bool) :
    (complete n directed).vertexCount = n := by
  have hlength := congrArg List.length (ids_complete n directed)
  rwa [ids, List.length_map, List.length_map, List.length_range, Array.length_toList] at hlength

/-- The number `i` stands at position `i`. -/
theorem position?_complete {n i : Nat} (directed : Bool) (hi : i < n) :
    (complete n directed).position? (natText i) = some i := by
  rw [(coherent_complete n directed).position_iff, ids_complete, List.getElem?_map,
    List.getElem?_range hi, Option.map_some]

/-- Between two positions of a complete graph leads an edge. -/
theorem exists_edgeBetween?_complete {n s t : Nat} (directed : Bool) (hs : s < n) (ht : t < n)
    (hne : s ≠ t) : ∃ e, (complete n directed).edgeBetween? s t = some e := by
  have hg := coherent_complete n directed
  have hplain := plain_complete n directed
  have hdirected : (complete n directed).directed = directed :=
    congrArg PlainGraph.directed hplain
  have hedge : ∀ i < n, ∀ j < n, PlainGraph.Joined directed i j →
      { source := natText i, target := natText j } ∈ (complete n directed).edges := by
    intro i hi j hj hjoined
    refine Array.mem_toList_iff.1 ?_
    show _ ∈ (complete n directed).plain.edges
    rw [hplain]
    exact PlainGraph.mem_edges_complete_iff.2 ⟨i, hi, j, hj, hjoined, rfl⟩
  have hposition : ∀ i < n, (complete n directed).position? (natText i) = some i := fun i hi =>
    position?_complete directed hi
  -- the edge is listed from `s` to `t`, or in an undirected graph from `t` to `s`
  rcases PlainGraph.joined_or_joined directed hne with hjoined | ⟨hundirected, hjoined⟩
  · exact ⟨_, hg.edgeBetween?_eq_some_iff.2
      ⟨hedge s hs t ht hjoined, .inl ⟨hposition s hs, hposition t ht⟩⟩⟩
  · exact ⟨_, hg.edgeBetween?_eq_some_iff.2 ⟨hedge t ht s hs hjoined,
      .inr ⟨hdirected.trans hundirected, hposition t ht, hposition s hs⟩⟩⟩

end HostGraph

end MotifQuery
