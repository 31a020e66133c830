import MotifQuery.Proofs.Cypher.WellFormed
import MotifQuery.Proofs.Graph.Calls
import MotifQuery.Proofs.Motif.Placement
import MotifQuery.Proofs.Motif.SearchOrder

/-!
# `MotifQuery.Proofs.Motif.Matches`: the search lists exactly the embeddings

`Motif.Embeds` says what a match is without speaking of positions, orders or indices: a
total injective map from the entities to the host vertices that satisfies all constraints,
finds every required edge and no forbidden one.

* `Motif.embeds_iff_placed`: a match embeds the motif exactly when the positions it names
  are a partial match of all entities.
* `Motif.Parsed`: the motifs that come out of a text, in either language.
* `Motif.find_lists_embeddings`: on a graph built by any calls the search for such a motif
  lists every embedding once and nothing else, and counting gives the length of the list.
-/

set_option autoImplicit false

namespace MotifQuery.Motif

/-! ### Embeddings -/

/-- An edge of the host joins two vertices and satisfies the constraints of a motif edge. -/
def HasEdge (g : HostGraph) (e : MotifEdge) (s t : String) : Prop :=
  ∃ f ∈ g.edges, SameEnds g.directed f.ends (s, t) ∧
    ∀ c ∈ e.constraints, c.satisfiedBy f.attributes = true

/-- The match embeds the motif into the host graph. -/
structure Embeds (m : Motif) (g : HostGraph) (b : Match) : Prop where
  total : ∀ x, (b.get? x).isSome ↔ x ∈ m.entities
  injective : ∀ x y id, b.get? x = some id → b.get? y = some id → x = y
  vertices : ∀ x id, b.get? x = some id → ∃ v ∈ g.vertices, v.id = id ∧
    ∀ c ∈ m.constraintsOn x, c.satisfiedBy v.attributes = true
  required : ∀ e ∈ m.edges, e.required = true →
    ∃ s t, b.get? e.source = some s ∧ b.get? e.target = some t ∧ HasEdge g e s t
  forbidden : ∀ e ∈ m.edges, e.required = false →
    ∀ s t, b.get? e.source = some s → b.get? e.target = some t → ¬ HasEdge g e s t

/-- The motifs of texts, in the motif language or as the pattern of a query. -/
inductive Parsed : Motif → Prop where
  | motif {source : String} {m : Motif} (h : parse source = .ok m) : Parsed m
  | query {source : String} {q : CypherQuery} (h : CypherQuery.parse source = .ok q) :
      Parsed q.motif

/-- The motif of a text names no entity that it does not list. -/
theorem Parsed.wellFormed {m : Motif} (h : Parsed m) : m.WellFormed := by
  cases h with
  | motif h => exact wellFormed_of_parse h
  | query h => exact CypherQuery.wellFormed_of_parse_query h

/-! ### Positions and ids -/

/-- The match names the host vertices at the positions of an assignment. -/
structure Names (g : HostGraph) (a : Assignment) (b : Match) : Prop where
  nodup_entities : (a.map Prod.fst).Nodup
  known : ∀ p ∈ a, ∃ id, g.position? id = some p.2
  get?_iff : ∀ x id, b.get? x = some id ↔ ∃ n, (x, n) ∈ a ∧ g.position? id = some n

variable {m : Motif} {g : HostGraph} {a : Assignment} {b : Match}

namespace Names

/-- The named entities are the bound ones. -/
theorem isSome_get?_iff (h : Names g a b) (x : String) :
    (b.get? x).isSome ↔ x ∈ a.map Prod.fst := by
  rw [Option.isSome_iff_exists, List.mem_map]
  constructor
  · rintro ⟨id, hid⟩
    obtain ⟨n, hn, -⟩ := (h.get?_iff x id).1 hid
    exact ⟨(x, n), hn, rfl⟩
  · rintro ⟨⟨x, n⟩, hn, rfl⟩
    obtain ⟨id, hid⟩ := h.known (x, n) hn
    exact ⟨id, (h.get?_iff x id).2 ⟨n, hn, hid⟩⟩

/-- Every bound entity is named. -/
theorem exists_id (h : Names g a b) {x : String} {n : Nat} (hn : (x, n) ∈ a) :
    ∃ id, b.get? x = some id ∧ g.position? id = some n := by
  obtain ⟨id, hid⟩ := h.known (x, n) hn
  exact ⟨id, (h.get?_iff x id).2 ⟨n, hn, hid⟩, hid⟩

/-- Distinct entities are named differently when they stand at distinct vertices. -/
theorem injective_iff (hg : g.Coherent) (h : Names g a b) :
    (∀ x y id, b.get? x = some id → b.get? y = some id → x = y)
      ↔ (a.map Prod.snd).Nodup := by
  constructor
  · intro hinj
    refine List.Nodup.map_on ?_ (List.Nodup.of_map Prod.fst h.nodup_entities)
    rintro ⟨x, n⟩ hx ⟨y, k⟩ hy rfl
    obtain ⟨id, hid, hn⟩ := h.exists_id hx
    obtain ⟨id', hid', hk⟩ := h.exists_id hy
    rw [hg.position?_inj hk hn] at hid'
    rw [hinj x y id hid hid']
  · intro hnodup x y id hx hy
    obtain ⟨n, hn, hid⟩ := (h.get?_iff x id).1 hx
    obtain ⟨k, hk, hid'⟩ := (h.get?_iff y id).1 hy
    rw [hid] at hid'
    cases hid'
    exact (Prod.mk.inj (List.inj_on_of_nodup_map hnodup hn hk rfl)).1

/-- The named vertices satisfy the constraints on the entities. -/
theorem vertices_iff (hg : g.Coherent) (h : Names g a b) :
    (∀ x id, b.get? x = some id → ∃ v ∈ g.vertices, v.id = id ∧
        ∀ c ∈ m.constraintsOn x, c.satisfiedBy v.attributes = true)
      ↔ ∀ p ∈ a, (g.vertices[p.2]?).any (fun v =>
          (m.constraintsOn p.1).all fun c => c.satisfiedBy v.attributes) = true := by
  simp only [Option.any_eq_true, List.all_eq_true]
  constructor
  · rintro hvertices ⟨x, n⟩ hx
    obtain ⟨id, hid, hn⟩ := h.exists_id hx
    obtain ⟨v, hv, rfl, hsat⟩ := hvertices x id hid
    obtain ⟨k, hk, hget⟩ := hg.exists_position_of_mem hv
    rw [hn] at hk
    cases hk
    exact ⟨v, hget, hsat⟩
  · intro hvertices x id hid
    obtain ⟨n, hn, hposition⟩ := (h.get?_iff x id).1 hid
    obtain ⟨v, hget, hsat⟩ := hvertices (x, n) hn
    obtain ⟨w, hw, hwid⟩ := hg.position?_eq_some_iff.1 hposition
    rw [hget] at hw
    cases hw
    exact ⟨v, Array.mem_of_getElem? hget, hwid, hsat⟩

end Names

/-- A look-up by positions finds an edge for a motif edge exactly when the host has one. -/
theorem any_admits_iff (hg : g.Coherent) {e : MotifEdge} {s t : String} {i j : Nat}
    (hs : g.position? s = some i) (ht : g.position? t = some j) :
    (g.edgeBetween? i j).any (fun f => e.admits f.attributes) = true ↔ HasEdge g e s t := by
  rw [Option.any_eq_true]
  simp only [hg.edgeBetween?_eq_some_iff, hg.leads_iff_sameEnds hs ht, MotifEdge.admits,
    List.all_eq_true, and_assoc]
  rfl

/-- An edge between named entities holds when the host has an edge for it as required, or
has none as forbidden. -/
theorem edgeHolds_iff (hg : g.Coherent) (h : Names g a b) {e : MotifEdge} {s t : String}
    (hs : b.get? e.source = some s) (ht : b.get? e.target = some t) :
    edgeHolds g a e = true ↔ (e.required = true ↔ HasEdge g e s t) := by
  obtain ⟨i, hi, hsi⟩ := (h.get?_iff _ _).1 hs
  obtain ⟨j, hj, htj⟩ := (h.get?_iff _ _).1 ht
  unfold edgeHolds
  rw [(lookup_eq_some_iff_mem h.nodup_entities).2 hi,
    (lookup_eq_some_iff_mem h.nodup_entities).2 hj]
  show (_ == e.required) = true ↔ _
  rw [← any_admits_iff hg hsi htj, beq_iff_eq, Bool.eq_iff_iff]
  exact iff_comm

/-- A match embeds the motif exactly when the positions that it names are a partial match
of all entities. -/
theorem embeds_iff_placed (hg : g.Coherent) (hm : m.WellFormed) (h : Names g a b)
    (hkeys : ∀ x, x ∈ a.map Prod.fst ↔ x ∈ m.entities) : m.Embeds g b ↔ Placed m g a := by
  -- every end of an edge is bound, so a condition on an edge speaks of two named vertices
  have hbound : ∀ x ∈ m.entities, ∃ id, b.get? x = some id := fun x hx =>
    Option.isSome_iff_exists.1 ((h.isSome_get?_iff x).2 ((hkeys x).2 hx))
  constructor
  · intro hb
    refine ⟨h.nodup_entities, (h.injective_iff hg).1 hb.injective,
      (h.vertices_iff hg).1 hb.vertices, fun e he => ?_⟩
    obtain ⟨s, hs⟩ := hbound _ (hm.source_mem e he)
    obtain ⟨t, ht⟩ := hbound _ (hm.target_mem e he)
    rw [edgeHolds_iff hg h hs ht]
    cases hrequired : e.required with
    | true =>
      -- an entity is bound to one vertex, so the ends are those that were named
      obtain ⟨s', t', hs', ht', hedge⟩ := hb.required e he hrequired
      rw [hs] at hs'
      rw [ht] at ht'
      cases hs'
      cases ht'
      exact iff_of_true rfl hedge
    | false => exact iff_of_false Bool.false_ne_true (hb.forbidden e he hrequired s t hs ht)
  · intro ha
    refine ⟨fun x => (h.isSome_get?_iff x).trans (hkeys x),
      (h.injective_iff hg).2 ha.nodup_positions, (h.vertices_iff hg).2 ha.vertices, ?_, ?_⟩
    · intro e he hrequired
      obtain ⟨s, hs⟩ := hbound _ (hm.source_mem e he)
      obtain ⟨t, ht⟩ := hbound _ (hm.target_mem e he)
      exact ⟨s, t, hs, ht, ((edgeHolds_iff hg h hs ht).1 (ha.edges e he)).1 hrequired⟩
    · intro e he hrequired s t hs ht hedge
      have htrue := ((edgeHolds_iff hg h hs ht).1 (ha.edges e he)).2 hedge
      rw [hrequired] at htrue
      cases htrue

/-! ### The match of an assignment -/

/-- The positions of a partial match are positions of vertices. -/
theorem Placed.known (hg : g.Coherent) (ha : Placed m g a) :
    ∀ p ∈ a, ∃ id, g.position? id = some p.2 := by
  intro p hp
  obtain ⟨v, hv, -⟩ := (Option.any_eq_true _ _).1 (ha.vertices p hp)
  exact ⟨v.id, hg.position?_eq_some_iff.2 ⟨v, hv, rfl⟩⟩

/-- The match names the vertices at the positions of distinct entities. -/
theorem get?_toMatch_eq_some_iff (hkeys : (a.map Prod.fst).Nodup) {x id : String} :
    (toMatch g a).get? x = some id
      ↔ ∃ n, (x, n) ∈ a ∧ ∃ v, g.vertices[n]? = some v ∧ v.id = id :=
  Dict.get?_ofList_filterMap_eq_some_iff hkeys

/-- The match of a partial match names its positions. -/
theorem Placed.names (hg : g.Coherent) (ha : Placed m g a) : Names g a (toMatch g a) where
  nodup_entities := ha.nodup_entities
  known := ha.known hg
  get?_iff x id := by
    simp only [get?_toMatch_eq_some_iff ha.nodup_entities, hg.position?_eq_some_iff]

/-- Partial matches of the same entities that give the same match are the same. -/
theorem Placed.eq_of_toMatch_eq (hg : g.Coherent) {a' : Assignment} (ha : Placed m g a)
    (ha' : Placed m g a') (hkeys : a.map Prod.fst = a'.map Prod.fst)
    (heq : toMatch g a = toMatch g a') : a = a' := by
  have hmem : ∀ p ∈ a, p ∈ a' := by
    rintro ⟨x, n⟩ hn
    obtain ⟨id, hid, hposition⟩ := (ha.names hg).exists_id hn
    rw [heq] at hid
    obtain ⟨k, hk, hposition'⟩ := ((ha'.names hg).get?_iff x id).1 hid
    rw [hposition] at hposition'
    cases hposition'
    exact hk
  -- entries in the same places have the same entity, which determines the position
  refine List.ext_getElem? fun i => ?_
  have hi := congrArg (·[i]?) hkeys
  simp only [List.getElem?_map] at hi
  cases hp : a[i]? with
  | none =>
    rw [hp, Option.map_none, eq_comm, Option.map_eq_none_iff] at hi
    exact hi.symm
  | some p =>
    rw [hp, Option.map_some, eq_comm, Option.map_eq_some_iff] at hi
    obtain ⟨q, hq, hfst⟩ := hi
    have hpq := List.inj_on_of_nodup_map ha'.nodup_entities (List.mem_of_getElem? hq)
      (hmem p (List.mem_of_getElem? hp)) hfst
    rw [hq, hpq]

/-- The positions of the vertices that a match names, for entities in some order. -/
def positions (g : HostGraph) (b : Match) (entities : List String) : Assignment :=
  entities.map fun x => (x, ((b.get? x).bind g.position?).getD 0)

theorem map_fst_positions (g : HostGraph) (b : Match) (entities : List String) :
    (positions g b entities).map Prod.fst = entities := by
  rw [positions, List.map_map]
  exact List.map_id entities

/-- An embedding names the positions of its vertices. -/
theorem Embeds.names (hg : g.Coherent) (hb : m.Embeds g b) {entities : List String}
    (hnodup : entities.Nodup) (hentities : ∀ x, x ∈ entities ↔ x ∈ m.entities) :
    Names g (positions g b entities) b := by
  have hposition : ∀ x id, b.get? x = some id →
      ∃ n, g.position? id = some n ∧ ((b.get? x).bind g.position?).getD 0 = n := by
    intro x id hid
    obtain ⟨v, hv, rfl, -⟩ := hb.vertices x id hid
    obtain ⟨n, hn, -⟩ := hg.exists_position_of_mem hv
    exact ⟨n, hn, by rw [hid, Option.bind_some, hn, Option.getD_some]⟩
  -- the position zero is a default that no entity of the motif takes
  have hmem : ∀ x n, (x, n) ∈ positions g b entities
      ↔ x ∈ entities ∧ ((b.get? x).bind g.position?).getD 0 = n := fun x n => by
    simp only [positions, List.mem_map, Prod.mk.injEq]
    constructor
    · rintro ⟨y, hy, rfl, hn⟩
      exact ⟨hy, hn⟩
    · rintro ⟨hx, hn⟩
      exact ⟨x, hx, rfl, hn⟩
  refine ⟨(map_fst_positions g b entities).symm ▸ hnodup, ?_, ?_⟩
  · rintro ⟨x, n⟩ hp
    obtain ⟨hx, hn⟩ := (hmem x n).1 hp
    obtain ⟨id, hid⟩ := Option.isSome_iff_exists.1 ((hb.total x).2 ((hentities x).1 hx))
    obtain ⟨k, hk, hk'⟩ := hposition x id hid
    rw [hn] at hk'
    exact ⟨id, hk'.symm ▸ hk⟩
  · intro x id
    constructor
    · intro hid
      obtain ⟨n, hn, hn'⟩ := hposition x id hid
      have hx := (hentities x).2 ((hb.total x).1 (Option.isSome_iff_exists.2 ⟨id, hid⟩))
      exact ⟨n, (hmem x n).2 ⟨hx, hn'⟩, hn⟩
    · rintro ⟨n, hp, hn⟩
      obtain ⟨hx, hn'⟩ := (hmem x n).1 hp
      obtain ⟨id', hid'⟩ := Option.isSome_iff_exists.1 ((hb.total x).2 ((hentities x).1 hx))
      obtain ⟨k, hk, hk'⟩ := hposition x id' hid'
      rw [hn'] at hk'
      rw [hid', hg.position?_inj hk (hk' ▸ hn)]

/-! ### All matches -/

/-- The search binds no entity twice. -/
theorem nodup_reverse_searchOrder (hm : m.WellFormed) : m.searchOrder.reverse.Nodup :=
  List.nodup_reverse.2 (m.searchOrder_perm.nodup_iff.2 hm.nodup_entities)

/-- What the search finds are the partial matches of all entities in search order. -/
theorem mem_extensions_searchOrder_iff (hg : g.Coherent) (hm : m.WellFormed) :
    a ∈ m.extensions g m.searchOrder []
      ↔ Placed m g a ∧ a.map Prod.fst = m.searchOrder.reverse := by
  have hnodup : (m.searchOrder.reverse ++ ([] : Assignment).map Prod.fst).Nodup := by
    rw [List.map_nil, List.append_nil]
    exact nodup_reverse_searchOrder hm
  rw [mem_extensions_iff hg placed_nil hnodup, List.map_nil, List.append_nil]
  exact and_congr_right fun _ => and_iff_right (List.nil_suffix)

theorem mem_reverse_searchOrder_iff (m : Motif) (x : String) :
    x ∈ m.searchOrder.reverse ↔ x ∈ m.entities := by
  rw [List.mem_reverse]
  exact m.searchOrder_perm.mem_iff

/-- The matches are the embeddings. -/
theorem mem_find_iff (hg : g.Coherent) (hm : m.WellFormed) : b ∈ m.find g ↔ m.Embeds g b := by
  rw [find, List.mem_map]
  constructor
  · rintro ⟨a, ha, rfl⟩
    obtain ⟨hplaced, hkeys⟩ := (mem_extensions_searchOrder_iff hg hm).1 ha
    refine (embeds_iff_placed hg hm (hplaced.names hg) fun x => ?_).2 hplaced
    rw [hkeys]
    exact m.mem_reverse_searchOrder_iff x
  · intro hb
    -- the search finds the positions of the embedding, and these name it
    have hnames := hb.names hg (nodup_reverse_searchOrder hm) m.mem_reverse_searchOrder_iff
    have hkeys := map_fst_positions g b m.searchOrder.reverse
    have hplaced := (embeds_iff_placed hg hm hnames fun x => by
      rw [hkeys]
      exact m.mem_reverse_searchOrder_iff x).1 hb
    refine ⟨_, (mem_extensions_searchOrder_iff hg hm).2 ⟨hplaced, hkeys⟩, ?_⟩
    refine Dict.ext_get? fun x => Option.ext fun id => ?_
    rw [(hplaced.names hg).get?_iff, hnames.get?_iff]

/-- Naming vertices that are there keeps the entities. -/
theorem map_fst_filterMap_vertices {a : Assignment}
    (hbounds : ∀ bound ∈ a, (g.vertices[bound.2]?).isSome) :
    (a.filterMap fun (entity, n) => (g.vertices[n]?).map fun v => (entity, v.id)).map Prod.fst
      = a.map Prod.fst := by
  rw [List.map_filterMap, ← List.filterMap_eq_map]
  refine List.filterMap_congr fun bound hbound => ?_
  obtain ⟨v, hv⟩ := Option.isSome_iff_exists.1 (hbounds bound hbound)
  obtain ⟨entity, n⟩ := bound
  dsimp only at hv ⊢
  rw [hv]
  rfl

/-- A match binds exactly the entities, in whatever graph it is. -/
theorem mem_keys_of_mem_find (hb : b ∈ m.find g) (x : String) : x ∈ b.keys ↔ x ∈ m.entities := by
  obtain ⟨a, ha, rfl⟩ := List.mem_map.1 hb
  have hnames := map_fst_filterMap_vertices (g := g) (a := a) fun bound hbound => by
    obtain hnil | ⟨v, hv, -⟩ := satisfied_of_mem_extensions ha bound hbound
    · cases hnil
    · exact Option.isSome_of_eq_some hv
  rw [toMatch, Dict.mem_keys_ofList, hnames, keys_of_mem_extensions ha, List.map_nil,
    List.append_nil]
  exact m.mem_reverse_searchOrder_iff x

/-- In whatever graph, a match binds every entity to a vertex that satisfies the constraints on
it. -/
theorem exists_vertex_of_mem_find (hm : m.WellFormed) (hb : b ∈ m.find g) {x : String}
    (hx : x ∈ m.entities) : ∃ v ∈ g.vertices, b.get? x = some v.id ∧
      ∀ c ∈ m.constraintsOn x, c.satisfiedBy v.attributes = true := by
  obtain ⟨a, ha, rfl⟩ := List.mem_map.1 hb
  have hkeys := keys_of_mem_extensions ha
  rw [List.map_nil, List.append_nil] at hkeys
  have hnodup : (a.map Prod.fst).Nodup := hkeys ▸ nodup_reverse_searchOrder hm
  obtain ⟨⟨y, n⟩, hn, rfl⟩ := List.mem_map.1 (hkeys ▸ (m.mem_reverse_searchOrder_iff x).2 hx)
  obtain hnil | ⟨v, hv, hsatisfied⟩ := satisfied_of_mem_extensions ha _ hn
  · cases hnil
  · exact ⟨v, Array.mem_of_getElem? hv,
      (get?_toMatch_eq_some_iff hnodup).2 ⟨n, hn, v, hv, rfl⟩, hsatisfied⟩

/-- No match stands twice. -/
theorem nodup_find (hg : g.Coherent) (hm : m.WellFormed) : (m.find g).Nodup := by
  refine List.Nodup.map_on (fun a ha a' ha' heq => ?_) (nodup_extensions hg m.searchOrder)
  obtain ⟨hplaced, hkeys⟩ := (mem_extensions_searchOrder_iff hg hm).1 ha
  obtain ⟨hplaced', hkeys'⟩ := (mem_extensions_searchOrder_iff hg hm).1 ha'
  exact hplaced.eq_of_toMatch_eq hg hplaced' (hkeys.trans hkeys'.symm) heq

/-- Counting gives the number of matches. -/
theorem count_eq_length (m : Motif) (g : HostGraph) : m.count g = (m.find g).length := by
  rw [count, find, List.length_map, countExtensions_eq_length]

/-- On a graph built by any calls the search for the motif of a text lists every embedding
once and nothing else, and counting gives the length of the list. -/
theorem find_lists_embeddings {m : Motif} (hm : Parsed m) (directed : Bool)
    (ms : List Mention) :
    (m.find (HostGraph.ofMentions directed ms)).Nodup ∧
      (∀ b, b ∈ m.find (HostGraph.ofMentions directed ms)
        ↔ m.Embeds (HostGraph.ofMentions directed ms) b) ∧
      m.count (HostGraph.ofMentions directed ms)
        = (m.find (HostGraph.ofMentions directed ms)).length := by
  have hg := HostGraph.coherent_ofMentions directed ms
  exact ⟨nodup_find hg hm.wellFormed, fun b => mem_find_iff hg hm.wellFormed,
    m.count_eq_length _⟩

/-- Of the two edges of kind `x` in this graph one is answered by an edge back, so that only
the other one is an embedding. -/
theorem find_lists_embeddings_of_text :
    ∃ m g, parse "A -> B [kind = 'x']; B !> A" = .ok m ∧
      g = HostGraph.ofMentions true [
        .edge "p" "q" (Dict.ofList [("kind", .str "x")]),
        .edge "q" "r" (Dict.ofList [("kind", .str "x")]),
        .edge "r" "q" ∅] ∧
      (m.find g).length = 1 ∧ (m.find g).Nodup ∧ ∀ b, b ∈ m.find g ↔ m.Embeds g b := by
  refine ⟨ofStatements [
    .edge ⟨"A", "B", true, [⟨"kind", .eq, .str "x"⟩]⟩, .edge ⟨"B", "A", false, []⟩],
    _, rfl, rfl, ?_⟩
  obtain ⟨hnodup, hmem, hcount⟩ := find_lists_embeddings
    (.motif (show parse "A -> B [kind = 'x']; B !> A" = .ok _ from rfl)) true [
      .edge "p" "q" (Dict.ofList [("kind", .str "x")]),
      .edge "q" "r" (Dict.ofList [("kind", .str "x")]),
      .edge "r" "q" ∅]
  exact ⟨hcount ▸ rfl, hnodup, hmem⟩

end MotifQuery.Motif
