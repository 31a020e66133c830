import MotifQuery.Proofs.Graph.Columns
import MotifQuery.Proofs.Graph.Plain

/-!
# `MotifQuery.Proofs.Graph.Inference`: inferred schemas are exact

`HostGraph.Carries` says that some vertex, or some edge, has a value at an attribute. A schema is
`Exact` for what is carried when it names the attributes that are carried, gives a type to those
whose values all have it, and leaves the others open. Nothing else counts: two exact schemas for
the same values are equal (`Schema.Exact.eq`), and where fewer values are carried a type that was
open may become known, and no other entry changes to anything but none (`Schema.Exact.shrinks`).

* `HostGraph.exact_schema`: the schema of every graph is exact for what the graph carries.
* `HostGraph.carries_ofMentions`: what calls that agree with each other leave in a graph is what
  some of them write, whatever their order.
* `HostGraph.schema_inferred`: all of this together.
-/

set_option autoImplicit false

namespace MotifQuery

/-! ### Exact schemas -/

namespace Schema

/-- The schema has an entry for every attribute that is carried, and no other. The entry is the
type that all values have; it is open when two values differ in type or one has none. -/
structure Exact (schema : Schema) (carried : String → Json → Prop) : Prop where
  present : ∀ name, (schema.get? name).isSome ↔ ∃ value, carried name value
  typed : ∀ name type, schema.get? name = some (some type) ↔
    (∃ value, carried name value) ∧ ∀ value, carried name value → ValueType.of? value = some type
  opened : ∀ name, schema.get? name = some none ↔
    (∃ value, carried name value ∧ ValueType.of? value = none) ∨
      ∃ value other, carried name value ∧ carried name other ∧
        ValueType.of? value ≠ ValueType.of? other

variable {schema other : Schema} {carried fewer : String → Json → Prop}

theorem Exact.absent (h : schema.Exact carried) {name : String} :
    schema.get? name = none ↔ ∀ value, ¬ carried name value := by
  rw [← not_exists, ← h.present name, Bool.not_eq_true, Option.isSome_eq_false_iff,
    Option.isNone_iff_eq_none]

/-- A schema is determined by what it is exact for. -/
theorem Exact.eq (h : schema.Exact carried) (h' : other.Exact carried) : schema = other := by
  refine Dict.ext_get? fun name => ?_
  match hentry : schema.get? name with
  | none => exact (h'.absent.2 (h.absent.1 hentry)).symm
  | some none => exact ((h'.opened name).2 ((h.opened name).1 hentry)).symm
  | some (some type) => exact ((h'.typed name type).2 ((h.typed name type).1 hentry)).symm

/-- Where fewer values are carried, an entry goes, stays, or gets a type after it was open. -/
theorem Exact.shrinks (h : schema.Exact carried) (h' : other.Exact fewer)
    (hfewer : ∀ name value, fewer name value → carried name value) (name : String) :
    other.get? name = none ∨ other.get? name = schema.get? name ∨
      schema.get? name = some none ∧ ∃ type, other.get? name = some (some type) := by
  match hentry : other.get? name with
  | none => exact .inl rfl
  | some none =>
    -- what differs among the fewer values differs among all of them
    refine .inr (.inl ((h.opened name).2 ?_).symm)
    rcases (h'.opened name).1 hentry with ⟨value, hvalue, htype⟩ | ⟨value, more, hvalue, hmore, hne⟩
    · exact .inl ⟨value, hfewer name value hvalue, htype⟩
    · exact .inr ⟨value, more, hfewer name value hvalue, hfewer name more hmore, hne⟩
  | some (some type) =>
    obtain ⟨⟨value, hvalue⟩, htypes⟩ := (h'.typed name type).1 hentry
    have hcarried := hfewer name value hvalue
    match hbefore : schema.get? name with
    | none => exact absurd hcarried (h.absent.1 hbefore value)
    | some none => exact .inr (.inr ⟨rfl, type, rfl⟩)
    | some (some before) =>
      have htype := ((h.typed name before).1 hbefore).2 value hcarried
      rw [htypes value hvalue] at htype
      exact .inr (.inl (congrArg some htype))

/-- The schema of attribute dictionaries is exact for the values in them. -/
theorem exact_ofAttributes (bags : List Attributes) :
    (ofAttributes bags).Exact fun name value => value ∈ column bags name where
  present name := by
    rw [get?_ofAttributes]
    constructor
    · intro h
      cases hcolumn : column bags name with
      | nil =>
        rw [hcolumn] at h
        cases h
      | cons value rest => exact ⟨value, List.mem_cons_self⟩
    · rintro ⟨value, hvalue⟩
      exact isSome_columnType hvalue
  typed name type := by
    have hne : column bags name ≠ [] ↔ ∃ value, value ∈ column bags name :=
      ⟨List.exists_mem_of_ne_nil _, fun ⟨_, hvalue⟩ => List.ne_nil_of_mem hvalue⟩
    rw [get?_ofAttributes, columnType_eq_some_iff, hne]
  opened name := by
    rw [get?_ofAttributes, columnType_eq_open_iff]
    simp only [← exists_and_left]

end Schema

/-! ### What a graph carries -/

namespace HostGraph

/-- Some vertex, or some edge, has the value at the attribute. -/
def Carries (g : HostGraph) : GraphPart → String → Json → Prop
  | .vertices, name, value => ∃ v ∈ g.vertices, v.attributes.get? name = some value
  | .edges, name, value => ∃ e ∈ g.edges, e.attributes.get? name = some value

/-- Every vertex, or every edge, of the first graph is one of the second. -/
def Within (g other : HostGraph) : GraphPart → Prop
  | .vertices => ∀ v ∈ g.vertices, v ∈ other.vertices
  | .edges => ∀ e ∈ g.edges, e ∈ other.edges

variable {g other : HostGraph} {part : GraphPart} {name : String} {value : Json}

theorem mem_column_bags_iff : value ∈ column (g.bags part) name ↔ g.Carries part name value := by
  cases part <;> simp [column, bags, Carries]

theorem Carries.mono (h : g.Carries part name value) (hwithin : g.Within other part) :
    other.Carries part name value := by
  cases part with
  | vertices =>
    obtain ⟨v, hv, hvalue⟩ := h
    exact ⟨v, hwithin v hv, hvalue⟩
  | edges =>
    obtain ⟨e, he, hvalue⟩ := h
    exact ⟨e, hwithin e he, hvalue⟩

/-- The schema of a graph is exact for what the graph carries. -/
theorem exact_schema (g : HostGraph) (part : GraphPart) :
    (g.schema part).Exact (g.Carries part) := by
  have hexact := Schema.exact_ofAttributes (g.bags part)
  simp only [mem_column_bags_iff] at hexact
  rwa [← g.schema_eq part] at hexact

theorem schema_eq_of_carries (h : ∀ name value, g.Carries part name value ↔
    other.Carries part name value) : g.schema part = other.schema part := by
  have hexact := g.exact_schema part
  have hcarries : g.Carries part = other.Carries part :=
    funext fun name => funext fun value => propext (h name value)
  rw [hcarries] at hexact
  exact hexact.eq (other.exact_schema part)

end HostGraph

/-! ### What calls write -/

namespace Mention

/-- The call writes the value at the attribute of a vertex, or of an edge. -/
def Writes (name : String) (value : Json) : GraphPart → Mention → Prop
  | .vertices, .vertex _ attributes | .edges, .edge _ _ attributes =>
    attributes.get? name = some value
  | .vertices, .edge _ _ _ | .edges, .vertex _ _ => False

/-- No two of the calls write different values at one attribute of one vertex or edge. -/
structure Agree (directed : Bool) (ms : List Mention) : Prop where
  vertices : ∀ m ∈ ms, ∀ m' ∈ ms, ∀ id name value other, m.vertexValue? id name = some value →
    m'.vertexValue? id name = some other → value = other
  edges : ∀ m ∈ ms, ∀ m' ∈ ms, ∀ p name value other,
    m.edgeValue? directed p name = some value → m'.edgeValue? directed p name = some other →
      value = other

theorem Agree.perm {directed : Bool} {ms ms' : List Mention} (h : Agree directed ms)
    (hperm : ms.Perm ms') : Agree directed ms' where
  vertices m hm m' hm' := h.vertices m (hperm.mem_iff.2 hm) m' (hperm.mem_iff.2 hm')
  edges m hm m' hm' := h.edges m (hperm.mem_iff.2 hm) m' (hperm.mem_iff.2 hm')

end Mention

/-- The last value that is written is one that is written. -/
theorem exists_of_lastWritten {value? : Mention → Option Json} {ms : List Mention} {value : Json}
    (h : lastWritten value? ms = some value) : ∃ m ∈ ms, value? m = some value := by
  obtain ⟨m, hm, hvalue⟩ := List.exists_of_findSome?_eq_some h
  exact ⟨m, List.mem_reverse.1 hm, hvalue⟩

/-- Where all calls that write one write the same value, that is the last one. -/
theorem lastWritten_eq_of_agree {value? : Mention → Option Json} {ms : List Mention} {m : Mention}
    {value : Json} (hagree : ∀ m' ∈ ms, ∀ other, value? m' = some other → other = value)
    (hm : m ∈ ms) (hvalue : value? m = some value) : lastWritten value? ms = some value := by
  cases hlast : lastWritten value? ms with
  | none =>
    have hnone := List.findSome?_eq_none_iff.1 hlast m (List.mem_reverse.2 hm)
    exact nomatch hnone.symm.trans hvalue
  | some other =>
    obtain ⟨m', hm', hother⟩ := exists_of_lastWritten hlast
    rw [hagree m' hm' other hother]

namespace HostGraph

variable {directed : Bool} {ms ms' : List Mention} {part : GraphPart} {name : String} {value : Json}

/-- A value of a vertex is one that a call writes at a vertex. -/
theorem carries_vertices_ofMentions (hagree : Mention.Agree directed ms) :
    (ofMentions directed ms).Carries .vertices name value ↔
      ∃ m ∈ ms, m.Writes name value .vertices := by
  have hg := ofMentions_represents directed ms
  constructor
  · rintro ⟨v, hv, hvalue⟩
    rw [hg.vertex_values v hv] at hvalue
    obtain ⟨m, hm, hwrites⟩ := exists_of_lastWritten hvalue
    refine ⟨m, hm, ?_⟩
    cases m with
    | vertex id attributes => exact (Option.ite_none_right_eq_some.1 hwrites).2
    | edge source target attributes => cases hwrites
  · rintro ⟨m, hm, hwrites⟩
    cases m with
    | edge source target attributes => exact hwrites.elim
    | vertex id attributes =>
      have hid : id ∈ (ofMentions directed ms).ids := by
        rw [hg.ids_order, List.mem_eraseDups, List.mem_flatMap]
        exact ⟨_, hm, List.mem_singleton_self id⟩
      obtain ⟨v, hv, rfl⟩ := List.mem_map.1 hid
      refine ⟨v, Array.mem_toList_iff.1 hv, ?_⟩
      have hself : Mention.vertexValue? v.id name (.vertex v.id attributes) = some value :=
        (if_pos rfl).trans hwrites
      rw [hg.vertex_values v (Array.mem_toList_iff.1 hv)]
      refine lastWritten_eq_of_agree (fun m' hm' other hother => ?_) hm hself
      exact hagree.vertices m' hm' _ hm v.id name other value hother hself

/-- A value of an edge is one that a call writes at an edge, whichever way round the edge is
listed. -/
theorem carries_edges_ofMentions (hagree : Mention.Agree directed ms) :
    (ofMentions directed ms).Carries .edges name value ↔
      ∃ m ∈ ms, m.Writes name value .edges := by
  have hg := ofMentions_represents directed ms
  constructor
  · rintro ⟨e, he, hvalue⟩
    rw [hg.edge_values e he] at hvalue
    obtain ⟨m, hm, hwrites⟩ := exists_of_lastWritten hvalue
    refine ⟨m, hm, ?_⟩
    cases m with
    | vertex id attributes => cases hwrites
    | edge source target attributes => exact (Option.ite_none_right_eq_some.1 hwrites).2
  · rintro ⟨m, hm, hwrites⟩
    cases m with
    | vertex id attributes => exact hwrites.elim
    | edge source target attributes =>
      -- in an undirected graph the edge may be listed with its ends the other way round
      have hends : (source, target) ∈ ms.filterMap Mention.ends? :=
        List.mem_filterMap.2 ⟨_, hm, rfl⟩
      obtain ⟨p, hp, hsame⟩ := exists_mem_eraseDupsBy
        (r := fun p q => SameEnds directed p q) (fun _ => decide_eq_true (.inl rfl)) hends
      rw [← hg.ends_order] at hp
      obtain ⟨e, he, rfl⟩ := List.mem_map.1 hp
      refine ⟨e, Array.mem_toList_iff.1 he, ?_⟩
      have hself : Mention.edgeValue? directed e.ends name (.edge source target attributes)
          = some value := (if_pos (sameEnds_comm.1 (of_decide_eq_true hsame))).trans hwrites
      rw [hg.edge_values e (Array.mem_toList_iff.1 he)]
      refine lastWritten_eq_of_agree (fun m' hm' other hother => ?_) hm hself
      exact hagree.edges m' hm' _ hm e.ends name other value hother hself

/-- Calls that agree leave every value that one of them writes, and no other. -/
theorem carries_ofMentions (hagree : Mention.Agree directed ms) :
    (ofMentions directed ms).Carries part name value ↔
      ∃ m ∈ ms, m.Writes name value part := by
  cases part with
  | vertices => exact carries_vertices_ofMentions hagree
  | edges => exact carries_edges_ofMentions hagree

/-- The schema of a graph is exact for what its vertices, or its edges, carry. So it is the same
for the same elements in another order, and after the same calls in another order as long as they
agree; and where elements are taken away, an entry goes, stays, or gets a type after it was
open. -/
theorem schema_inferred (part : GraphPart) :
    (∀ g : HostGraph, (g.schema part).Exact (g.Carries part))
      ∧ (∀ g other : HostGraph, g.Within other part → other.Within g part →
        g.schema part = other.schema part)
      ∧ (∀ (directed : Bool) (ms ms' : List Mention), ms.Perm ms' → Mention.Agree directed ms →
        (ofMentions directed ms).schema part = (ofMentions directed ms').schema part)
      ∧ ∀ g other : HostGraph, other.Within g part → ∀ name,
        (other.schema part).get? name = none
          ∨ (other.schema part).get? name = (g.schema part).get? name
          ∨ (g.schema part).get? name = some none
            ∧ ∃ type, (other.schema part).get? name = some (some type) := by
  refine ⟨fun g => g.exact_schema part, fun g other h h' => ?_,
    fun directed ms ms' hperm hagree => ?_, fun g other hwithin name => ?_⟩
  · exact schema_eq_of_carries fun name value => ⟨fun hg => hg.mono h, fun ho => ho.mono h'⟩
  · refine schema_eq_of_carries fun name value => ?_
    rw [carries_ofMentions hagree, carries_ofMentions (hagree.perm hperm)]
    exact exists_congr fun m => and_congr_left' hperm.mem_iff
  · exact (g.exact_schema part).shrinks (other.exact_schema part)
      (fun _ _ hcarries => hcarries.mono hwithin) name

/-- Two calls that write a number and a text leave an attribute open in either order, and so does
any graph with the same vertices. Without the text the attribute has a type. -/
theorem schema_inferred_of_mixed :
    let number := Mention.vertex "a" (Dict.ofList [("size", .int 1)])
    let text := Mention.vertex "b" (Dict.ofList [("size", .str "large")])
    let g := ofMentions false [number, text]
    g.schema .vertices = (ofMentions false [text, number]).schema .vertices
      ∧ g.schema .vertices = (ofMentions true [text, number, number]).schema .vertices
      ∧ (g.schema .vertices).get? "size" = some none
      ∧ ∃ type, ((ofMentions false [number]).schema .vertices).get? "size" = some (some type) := by
  intro number text g
  obtain ⟨-, helements, hcalls, hremoval⟩ := schema_inferred .vertices
  have hagree : Mention.Agree false [number, text] := by
    constructor
    · intro m hm m' hm' id name value other hvalue hother
      simp only [List.mem_cons, List.not_mem_nil, or_false] at hm hm'
      -- the calls are about two vertices, so what is written twice is written by one of them
      have hsame : m = m' := by
        rcases hm with rfl | rfl <;> rcases hm' with rfl | rfl
        · rfl
        · exact absurd ((Option.ite_none_right_eq_some.1 hvalue).1.trans
            (Option.ite_none_right_eq_some.1 hother).1.symm) (by decide)
        · exact absurd ((Option.ite_none_right_eq_some.1 hvalue).1.trans
            (Option.ite_none_right_eq_some.1 hother).1.symm) (by decide)
        · rfl
      rw [hsame] at hvalue
      exact Option.some_inj.1 (hvalue.symm.trans hother)
    · intro m hm m' hm' p name value other hvalue
      simp only [List.mem_cons, List.not_mem_nil, or_false] at hm
      rcases hm with rfl | rfl <;> cases hvalue
  have hmore : g.Within (ofMentions true [text, number, number]) .vertices :=
    (by decide +kernel : ∀ v ∈ g.vertices, v ∈ (ofMentions true [text, number, number]).vertices)
  have hback : (ofMentions true [text, number, number]).Within g .vertices :=
    (by decide +kernel : ∀ v ∈ (ofMentions true [text, number, number]).vertices, v ∈ g.vertices)
  have hfewer : (ofMentions false [number]).Within g .vertices :=
    (by decide +kernel : ∀ v ∈ (ofMentions false [number]).vertices, v ∈ g.vertices)
  refine ⟨hcalls false _ _ (List.Perm.swap _ _ _) hagree, helements _ _ hmore hback,
    by decide +kernel, ?_⟩
  rcases hremoval g (ofMentions false [number]) hfewer "size" with hgone | hsame | ⟨-, htype⟩
  · exact absurd hgone (by decide +kernel)
  · exact absurd hsame (by decide +kernel)
  · exact htype

end HostGraph

end MotifQuery
