import MotifQuery.GraphML.Reader
import MotifQuery.GraphML.Writer
import MotifQuery.Proofs.Dict
import MotifQuery.Proofs.Number.Integer
import MotifQuery.Proofs.Xml.RoundTrip

/-!
# `MotifQuery.Proofs.GraphML.Keys`: the key table read back

Writer and reader share nothing but the key elements. The writer finds the row of a key by
the name of an attribute, the reader by its id. `exists_key` joins the two: a row found by
name is declared under its id, for the vertices and for the edges, since no id is written
twice.

`Reads` says what state the reader is in after a row of events that was written and read
back, and `reads_keyEvents` that the key elements leave it with the keys of their table.
-/

set_option autoImplicit false

namespace MotifQuery.GraphML

open Number

/-! ### Rows of a table -/

/-- The id of a row and the key that it declares. -/
def declared (row : String × String × String) : String × Key :=
  (row.2.1, { name := row.1, type := row.2.2 })

/-- The part of an id that tells the tables apart. -/
def stem : GraphPart → String
  | .vertices => "n"
  | .edges => "e"

/-- The key table of the vertices or of the edges. -/
def keysOf (g : HostGraph) (part : GraphPart) : List (String × String × String) :=
  keyTable (g.schema part) (stem part)

/-- The keys that a document declares. -/
def declaredKeys (g : HostGraph) : Dict Key :=
  Dict.ofList ((keysOf g .vertices ++ keysOf g .edges).map declared)

theorem map_name_keyTable (schema : Schema) (stem : String) :
    (keyTable schema stem).map Prod.fst = schema.keys := by
  have hnames : (keyTable schema stem).map Prod.fst
      = (schema.entries.zipIdx.map Prod.fst).map Prod.fst := by
    rw [keyTable, List.map_map, List.map_map]
    rfl
  rw [hnames, List.zipIdx_map_fst]
  rfl

theorem map_id_keyTable (schema : Schema) (stem : String) :
    ((keyTable schema stem).map declared).map Prod.fst
      = (List.range' 0 schema.entries.length).map fun i => stem ++ natText i := by
  rw [← List.zipIdx_map_snd 0 schema.entries, keyTable]
  simp only [List.map_map]
  rfl

theorem nodup_ids_keyTable (schema : Schema) (stem : String) :
    (((keyTable schema stem).map declared).map Prod.fst).Nodup := by
  -- ids are numbered
  rw [map_id_keyTable]
  refine (List.nodup_range' _).map fun i j h => ?_
  exact natText_inj ((String.append_right_inj stem).1 h)

/-- Ids of vertex keys are no ids of edge keys. -/
theorem ids_disjoint (g : HostGraph) :
    ∀ id ∈ ((keysOf g .vertices).map declared).map Prod.fst,
      ∀ id' ∈ ((keysOf g .edges).map declared).map Prod.fst, id ≠ id' := by
  intro id hid id' hid' heq
  unfold keysOf at hid hid'
  rw [map_id_keyTable] at hid hid'
  obtain ⟨i, -, rfl⟩ := List.mem_map.1 hid
  obtain ⟨j, -, rfl⟩ := List.mem_map.1 hid'
  have hchars := congrArg String.toList heq
  have hvertices : (stem .vertices).toList = ['n'] := rfl
  have hedges : (stem .edges).toList = ['e'] := rfl
  rw [String.toList_append, String.toList_append, hvertices, hedges] at hchars
  exact absurd (List.cons.inj hchars).1 (by decide)

/-- No id is declared twice. -/
theorem nodup_ids_declared (g : HostGraph) :
    (((keysOf g .vertices ++ keysOf g .edges).map declared).map Prod.fst).Nodup := by
  rw [List.map_append, List.map_append, List.nodup_append]
  exact ⟨nodup_ids_keyTable _ _, nodup_ids_keyTable _ _, ids_disjoint g⟩

theorem exists_row {schema : Schema} {name : String} {type : Option ValueType}
    (h : schema.get? name = some type) (stem : String) :
    ∃ id, (name, id, typeName type) ∈ keyTable schema stem := by
  obtain ⟨i, hi⟩ := List.mem_iff_getElem?.1 (Dict.mem_entries_iff.2 h)
  have hmem : ((name, type), i) ∈ schema.entries.zipIdx :=
    List.mk_mem_zipIdx_iff_getElem?.2 hi
  refine ⟨stem ++ natText i, ?_⟩
  exact List.mem_map.2 ⟨_, hmem, rfl⟩

/-- The key that the writer finds by a name is the one that the reader finds by its id. -/
theorem exists_key {g : HostGraph} {part : GraphPart} {name : String} {type : Option ValueType}
    (h : (g.schema part).get? name = some type) :
    ∃ id, (keysOf g part).lookup name = some (id, typeName type) ∧
      (declaredKeys g).get? id = some { name := name, type := typeName type } := by
  obtain ⟨id, hrow⟩ := exists_row h (stem part)
  -- the table is searched by name, the keys by id
  have hnames : ((keysOf g part).map Prod.fst).Nodup := by
    rw [keysOf, map_name_keyTable]
    exact (g.schema part).nodup_keys
  have hall : (name, id, typeName type) ∈ keysOf g .vertices ++ keysOf g .edges := by
    cases part with
    | vertices => exact List.mem_append_left _ hrow
    | edges => exact List.mem_append_right _ hrow
  refine ⟨id, (lookup_eq_some_iff_mem hnames).2 hrow, ?_⟩
  rw [declaredKeys, Dict.get?_ofList_eq_some_iff (nodup_ids_declared g)]
  exact List.mem_map.2 ⟨_, hall, rfl⟩

/-! ### Reading what was written -/

/-- The events that were written lead the reader from one state to another. -/
def Reads (s : State) (es : List Xml.Event) (t : State) : Prop :=
  (es.flatMap Xml.Event.readBack).foldlM State.step s = .ok t

theorem Reads.nil (s : State) : Reads s [] s :=
  rfl

theorem Reads.append {s t u : State} {es fs : List Xml.Event} (h : Reads s es t)
    (h' : Reads t fs u) : Reads s (es ++ fs) u := by
  unfold Reads at h h' ⊢
  rw [List.flatMap_append, List.foldlM_append, h]
  exact h'

/-- An event that is read back as it is. -/
theorem reads_event {s t : State} {e : Xml.Event} (hback : e.readBack = [e])
    (h : s.step e = .ok t) : Reads s [e] t := by
  rw [Reads, List.flatMap_singleton, hback, List.foldlM_cons, h]
  rfl

theorem step_key (s : State) (domain : String) (row : String × String × String) :
    s.step (.standing "key" (some [("id", row.2.1), ("for", domain), ("attr.name", row.1),
        ("attr.type", row.2.2)]))
      = .ok { s with keys := s.keys.insert (declared row).1 (declared row).2 } := by
  have hname : localName "key" = "key" := rfl
  rw [State.step, State.enter, hname, if_pos rfl]
  rfl

/-- Key elements declare the keys of their table. -/
theorem reads_keyEvents (s : State) (domain : String) (table : List (String × String × String)) :
    Reads s (keyEvents domain table)
      { s with keys :=
          (table.map declared).foldl (fun keys e => keys.insert e.1 e.2) s.keys } := by
  induction table generalizing s with
  | nil => exact Reads.nil s
  | cons row rest ih =>
    exact (reads_event rfl (step_key s domain row)).append (ih _)

end MotifQuery.GraphML
