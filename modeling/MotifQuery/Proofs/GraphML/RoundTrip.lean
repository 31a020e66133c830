import MotifQuery.Proofs.GraphML.Elements

/-!
# `MotifQuery.Proofs.GraphML.RoundTrip`: exporting and importing a graph

Export and import keep the direction, the vertices, the edges and the names of the
attributes of a graph, in order, and settle every value by its column: `Normalises`.

* `nests_rootEvents`: the events of a graph nest, so the document is read back event by
  event.
* `reads_rootEvents`: read back, they lead the reader to the graph that mentions every
  vertex and every edge again, with settled attributes.
* `import_export_normalises`: every graph that calls build is exported, imported and
  normalised, when it holds no doubles and no whole numbers beyond 64 bits.
-/

set_option autoImplicit false

namespace MotifQuery

/-- Does a call mention a vertex or an edge? -/
def Mention.part : Mention → GraphPart
  | .vertex _ _ => .vertices
  | .edge _ _ _ => .edges

namespace GraphML

open Text

/-! ### What becomes of a graph -/

/-- The second graph is the first one with its values settled: a value stays in a column of
whole numbers or of truth values and turns into trimmed text in any other. -/
structure Normalises (g g' : HostGraph) : Prop where
  directed : g'.directed = g.directed
  /-- The vertices are the same, in the same order. -/
  ids : g'.ids = g.ids
  /-- The edges are the same, in the same order. -/
  ends : g'.ends = g.ends
  /-- Every vertex and every edge has the attributes that it had. -/
  names : ∀ part, (g'.bags part).map Dict.keys = (g.bags part).map Dict.keys
  values : ∀ (part : GraphPart) (i : Nat) (bag bag' : Attributes), (g.bags part)[i]? = some bag →
    (g'.bags part)[i]? = some bag' → ∀ name value, bag.get? name = some value →
      bag'.get? name = some (settled (column (g.bags part) name) value)

/-- The attributes of a vertex or an edge of a graph with their values settled. -/
def settledAttributes (g : HostGraph) (part : GraphPart) (attributes : Attributes) : Attributes :=
  attributes.mapWithKey fun name => settled (column (g.bags part) name)

/-- A mention of a vertex or an edge of a graph with its values settled. -/
def settledMention (g : HostGraph) (m : Mention) : Mention :=
  m.withAttributes (settledAttributes g m.part m.attributes)

/-- The lists of a graph with its values settled. -/
def settledLists (g : HostGraph) : PlainGraph where
  directed := g.directed
  vertices := g.vertices.toList.map fun v =>
    { v with attributes := settledAttributes g .vertices v.attributes }
  edges := g.edges.toList.map fun e =>
    { e with attributes := settledAttributes g .edges e.attributes }

theorem ids_settledLists (g : HostGraph) : (settledLists g).ids = g.ids := by
  rw [PlainGraph.ids, settledLists, List.map_map]
  rfl

theorem ends_settledLists (g : HostGraph) : (settledLists g).ends = g.ends := by
  rw [PlainGraph.ends, settledLists, List.map_map]
  rfl

theorem mentions_settledLists (g : HostGraph) :
    (settledLists g).mentions = g.plain.mentions.map (settledMention g) := by
  simp only [PlainGraph.mentions, settledLists, HostGraph.plain, List.map_append, List.map_map]
  rfl

/-- A graph with settled lists is normalised. -/
theorem normalises_of_plain {g g' : HostGraph} (h : g'.plain = settledLists g) :
    Normalises g g' := by
  -- vertices and edges in one: each part is a list of attribute dictionaries
  have hbags : ∀ part, g'.bags part = (g.bags part).map (settledAttributes g part) := by
    intro part
    cases part with
    | vertices =>
      have hvertices : g'.vertices.toList = (settledLists g).vertices :=
        congrArg PlainGraph.vertices h
      simp only [HostGraph.bags, hvertices, settledLists, List.map_map]
      rfl
    | edges =>
      have hedges : g'.edges.toList = (settledLists g).edges := congrArg PlainGraph.edges h
      simp only [HostGraph.bags, hedges, settledLists, List.map_map]
      rfl
  constructor
  case directed => exact congrArg PlainGraph.directed h
  case ids => exact (congrArg PlainGraph.ids h).trans (ids_settledLists g)
  case ends => exact (congrArg PlainGraph.ends h).trans (ends_settledLists g)
  case names =>
    intro part
    rw [hbags, List.map_map]
    exact List.map_congr_left fun bag _ => Dict.keys_mapWithKey _ bag
  case values =>
    intro part i bag bag' hbag hbag' name value hvalue
    rw [hbags, List.getElem?_map, hbag] at hbag'
    cases hbag'
    rw [settledAttributes, Dict.get?_mapWithKey, hvalue]
    rfl

/-! ### The rows of a document -/

/-- The events of a mention in a graph. -/
def mentionEvents (g : HostGraph) (m : Mention) : List Xml.Event :=
  elementEvents (keysOf g m.part) (elementName m) (elementTag m) m.attributes

/-- The attributes of the tag of the document. -/
def rootTag : List (String × String) :=
  [("xmlns", "http://graphml.graphdrawing.org/xmlns")]

/-- The attributes of the tag of a graph. -/
def graphTag (g : HostGraph) : List (String × String) :=
  [("edgedefault", if g.directed then "directed" else "undirected")]

/-- The element of a graph. -/
def graphEvents (g : HostGraph) : List Xml.Event :=
  .opening "graph" (some (graphTag g)) :: g.plain.mentions.flatMap (mentionEvents g)
    ++ [.closing "graph"]

/-- The element of a document. -/
def rootEvents (g : HostGraph) : List Xml.Event :=
  .opening "graphml" (some rootTag) ::
    (keyEvents "node" (keysOf g .vertices) ++ keyEvents "edge" (keysOf g .edges) ++ graphEvents g)
    ++ [.closing "graphml"]

theorem events_eq (g : HostGraph) : events g = .declaration :: rootEvents g := by
  have hmentions : g.plain.mentions.flatMap (mentionEvents g)
      = g.vertices.toList.flatMap (fun v =>
          elementEvents (keysOf g .vertices) "node" [("id", v.id)] v.attributes)
        ++ g.edges.toList.flatMap (fun e =>
          elementEvents (keysOf g .edges) "edge" [("source", e.source), ("target", e.target)]
            e.attributes) := by
    rw [PlainGraph.mentions, List.flatMap_append, List.flatMap_map, List.flatMap_map]
    rfl
  rw [rootEvents, graphEvents, hmentions]
  simp only [List.append_assoc, List.cons_append, List.nil_append]
  unfold events
  simp only [List.append_assoc, List.cons_append, List.nil_append]
  rfl

theorem balanced_keyEvents (domain : String) (table : List (String × String × String)) :
    Xml.Balanced (keyEvents domain table) := by
  rw [keyEvents, List.map_eq_flatMap]
  refine Xml.balanced_flatMap fun row _ => Xml.balanced_standing ?_
  exact Xml.WrittenTag.of_keys ["id", "for", "attr.name", "attr.type"] rfl rfl rfl (by decide)

theorem balanced_datumEvents (table : List (String × String × String)) (entry : String × Json) :
    Xml.Balanced (datumEvents table entry) := by
  unfold datumEvents
  split
  · exact Xml.balanced_text _ (Xml.WrittenTag.of_keys ["key"] rfl rfl rfl (by decide))
  · exact Xml.balanced_nil

theorem balanced_mentionEvents (g : HostGraph) (m : Mention) :
    Xml.Balanced (mentionEvents g m) := by
  have htag : Xml.WrittenTag (elementName m) (elementTag m) := by
    cases m with
    | vertex id attributes =>
      have hname : Xml.isName "node" = true := rfl
      exact Xml.WrittenTag.of_keys ["id"] rfl hname rfl (by decide)
    | edge source target attributes =>
      have hname : Xml.isName "edge" = true := rfl
      exact Xml.WrittenTag.of_keys ["source", "target"] rfl hname rfl (by decide)
  unfold mentionEvents elementEvents
  split
  · exact Xml.balanced_standing htag
  · exact Xml.balanced_element htag
      (Xml.balanced_flatMap fun entry _ => balanced_datumEvents _ entry)

theorem balanced_graphEvents (g : HostGraph) : Xml.Balanced (graphEvents g) := by
  have htag : Xml.WrittenTag "graph" (graphTag g) :=
    Xml.WrittenTag.of_keys ["edgedefault"] rfl rfl rfl (by decide)
  exact Xml.balanced_element htag
    (Xml.balanced_flatMap fun m _ => balanced_mentionEvents g m)

theorem nests_rootEvents (g : HostGraph) : Xml.Nests [] (rootEvents g) := by
  have htag : Xml.WrittenTag "graphml" rootTag :=
    Xml.WrittenTag.of_keys ["xmlns"] rfl rfl rfl (by decide)
  have hkeys := (balanced_keyEvents "node" (keysOf g .vertices)).append
    (balanced_keyEvents "edge" (keysOf g .edges))
  have hbalanced : Xml.Balanced (rootEvents g) :=
    Xml.balanced_element htag (hkeys.append (balanced_graphEvents g))
  rw [← List.append_nil (rootEvents g)]
  exact hbalanced [] [] Xml.Nests.nil

/-! ### Reading the rows back -/

/-- Every value of a graph is portable. -/
def PortableGraph (g : HostGraph) : Prop :=
  ∀ part, ∀ bag ∈ g.bags part, ∀ name value, bag.get? name = some value → isPortable value = true

/-- The value of an attribute settles under the key of its column. -/
theorem settlesTo {g : HostGraph} {part : GraphPart} {bag : Attributes} (hbag : bag ∈ g.bags part)
    {name : String} {value : Json} (hvalue : bag.get? name = some value)
    (hportable : isPortable value = true) :
    SettlesTo (declaredKeys g) (keysOf g part) name value
      (settled (column (g.bags part) name) value) := by
  have hmem : value ∈ column (g.bags part) name := mem_column hbag hvalue
  obtain ⟨type, htype⟩ := Option.isSome_iff_exists.1 (Schema.isSome_columnType hmem)
  have hschema : (g.schema part).get? name = some type := by
    rw [g.schema_eq, Schema.get?_ofAttributes, htype]
  obtain ⟨id, hrow, hkey⟩ := exists_key hschema
  exact ⟨id, typeName type, hrow, hkey, fun raw hraw =>
    typedValue_eq_settled htype hmem hportable hraw⟩

theorem bag_mem_of_mention {g : HostGraph} {m : Mention} (h : m ∈ g.plain.mentions) :
    m.attributes ∈ g.bags m.part := by
  rcases List.mem_append.1 h with h | h
  · obtain ⟨v, hv, rfl⟩ := List.mem_map.1 h
    exact List.mem_map_of_mem hv
  · obtain ⟨e, he, rfl⟩ := List.mem_map.1 h
    exact List.mem_map_of_mem he

theorem enter_graph {s : State} (h : s.graph = none) (g : HostGraph) :
    s.enter false "graph" (some (graphTag g))
      = .ok { s with graph := some (.empty g.directed) } := by
  have hname : localName "graph" = "graph" := rfl
  have hdirected : (attr? (graphTag g) "edgedefault" == some "directed") = g.directed := by
    unfold graphTag
    cases g.directed <;> rfl
  rw [State.enter, hname, if_neg (by decide), if_pos rfl, State.openGraph, h, hdirected]

/-- The tag of the document says nothing about the graph. -/
theorem enter_root (s : State) : s.enter false "graphml" (some rootTag) = .ok s := by
  have hname : localName "graphml" = "graphml" := rfl
  rw [State.enter, hname, if_neg (by decide), if_neg (by decide), if_neg (by decide),
    if_neg (by decide), if_neg (by decide)]

/-- Closing the graph or the document changes nothing. -/
theorem leave_of_mem {name : String} (h : name = "graph" ∨ name = "graphml") (s : State) :
    s.leave name = .ok s := by
  rcases h with rfl | rfl
  · have hname : localName "graph" = "graph" := rfl
    rw [State.leave, hname, if_neg (by decide), if_neg (by decide), if_neg (by decide)]
  · have hname : localName "graphml" = "graphml" := rfl
    rw [State.leave, hname, if_neg (by decide), if_neg (by decide), if_neg (by decide)]

/-- The graph that the events of a graph are read as. -/
def reread (g : HostGraph) : HostGraph :=
  HostGraph.ofMentions g.directed (g.plain.mentions.map (settledMention g))

/-- The element of a graph leads the reader to the graph of the settled mentions. -/
theorem reads_graphEvents {g : HostGraph} (h : PortableGraph g) :
    Reads { keys := declaredKeys g } (graphEvents g) (between (declaredKeys g) (reread g)) := by
  have hopening : Reads { keys := declaredKeys g } [.opening "graph" (some (graphTag g))]
      (between (declaredKeys g) (.empty g.directed)) :=
    reads_event rfl (enter_graph rfl g)
  have helements : Reads (between (declaredKeys g) (.empty g.directed))
      (g.plain.mentions.flatMap (mentionEvents g)) (between (declaredKeys g) (reread g)) := by
    refine reads_elements fun m hm g' => ?_
    refine reads_element fun name value hvalue => ?_
    have hbag := bag_mem_of_mention hm
    exact settlesTo hbag hvalue (h m.part m.attributes hbag name value hvalue)
  have hclosing : Reads (between (declaredKeys g) (reread g)) [.closing "graph"]
      (between (declaredKeys g) (reread g)) :=
    reads_event rfl (leave_of_mem (.inl rfl) _)
  exact (hopening.append helements).append hclosing

/-- Both key tables leave the reader with the keys that the document declares. -/
theorem reads_keys (g : HostGraph) :
    Reads {} (keyEvents "node" (keysOf g .vertices) ++ keyEvents "edge" (keysOf g .edges))
      { keys := declaredKeys g } := by
  -- the second table is read with the keys of the first
  have hboth := (reads_keyEvents {} "node" (keysOf g .vertices)).append
    (reads_keyEvents _ "edge" (keysOf g .edges))
  rw [declaredKeys, Dict.ofList, List.map_append, List.foldl_append]
  exact hboth

theorem reads_rootEvents {g : HostGraph} (h : PortableGraph g) :
    Reads {} (rootEvents g) (between (declaredKeys g) (reread g)) := by
  have hopening : Reads {} [.opening "graphml" (some rootTag)] {} :=
    reads_event rfl (enter_root {})
  have hclosing : Reads (between (declaredKeys g) (reread g)) [.closing "graphml"]
      (between (declaredKeys g) (reread g)) :=
    reads_event rfl (leave_of_mem (.inr rfl) _)
  exact (hopening.append ((reads_keys g).append (reads_graphEvents h))).append hclosing

/-- The document of a graph is read as the graph of the settled mentions. -/
theorem read_write_eq_reread {g : HostGraph} (h : PortableGraph g) :
    read false (bytesOf (write g)) = .ok (reread g) := by
  have hreads := reads_rootEvents h
  have hevents : Xml.readEvents false (bytesOf (write g))
      = ⟨(Xml.Event.declaration :: rootEvents g).flatMap Xml.Event.readBack, false⟩ := by
    rw [write, events_eq, Xml.readEvents_render (nests_rootEvents g)]
  have hrun : ((Xml.Event.declaration :: rootEvents g).flatMap Xml.Event.readBack).foldlM
      State.step {} = .ok (between (declaredKeys g) (reread g)) := hreads
  have hgraph : ofEvents (Xml.readEvents false (bytesOf (write g))) = .ok (reread g) := by
    rw [hevents, ofEvents, hrun]
    rfl
  rw [read, hgraph]

/-- The graph that is read back has the settled lists. -/
theorem plain_reread (directed : Bool) (ms : List Mention) :
    (reread (HostGraph.ofMentions directed ms)).plain
      = settledLists (HostGraph.ofMentions directed ms) := by
  have hsimple := HostGraph.simple_ofMentions directed ms
  -- settling changes neither ids nor ends
  have hsettled : (settledLists (HostGraph.ofMentions directed ms)).Simple := by
    constructor
    · rw [ids_settledLists]
      exact hsimple.ids_nodup
    · rw [ends_settledLists]
      exact hsimple.ends_distinct
    · rw [ids_settledLists, ends_settledLists]
      exact hsimple.ends_mem
  rw [reread, HostGraph.plain_ofMentions, ← mentions_settledLists]
  exact PlainGraph.ofMentions_mentions hsettled

/-- Calls that give portable values build a graph of portable values. -/
theorem portableGraph_ofMentions (directed : Bool) {ms : List Mention}
    (h : ms.all (fun m => m.attributes.values.all isPortable) = true) :
    PortableGraph (HostGraph.ofMentions directed ms) := by
  have hplain := HostGraph.plain_ofMentions directed ms
  -- a value that is found is one that some call writes
  have hwritten : ∀ (value? : Mention → Option Json) (name : String) (value : Json),
      (∀ m, value? m = some value → m.attributes.get? name = some value) →
      lastWritten value? ms = some value → isPortable value = true := by
    intro value? name value hvalue? hlast
    obtain ⟨m, hm, hvalue⟩ := List.exists_of_findSome?_eq_some hlast
    have hmem : value ∈ m.attributes.values :=
      List.mem_map_of_mem (Dict.mem_entries_iff.2 (hvalue? m hvalue))
    exact List.all_eq_true.1 (List.all_eq_true.1 h m (List.mem_reverse.1 hm)) value hmem
  intro part bag hbag name value hvalue
  cases part with
  | vertices =>
    obtain ⟨v, hv, rfl⟩ := List.mem_map.1 hbag
    have hlast := PlainGraph.vertexValues_ofMentions directed ms v (hplain ▸ hv) name
    refine hwritten _ name value (fun m hm => ?_) (hlast.symm.trans hvalue)
    cases m with
    | vertex id attributes => exact (Option.ite_none_right_eq_some.1 hm).2
    | edge => cases hm
  | edges =>
    obtain ⟨e, he, rfl⟩ := List.mem_map.1 hbag
    have hlast := PlainGraph.edgeValues_ofMentions directed ms e (hplain ▸ he) name
    refine hwritten _ name value (fun m hm => ?_) (hlast.symm.trans hvalue)
    cases m with
    | vertex => cases hm
    | edge source target attributes => exact (Option.ite_none_right_eq_some.1 hm).2

/-- Every graph that calls build is exported, and what is exported is imported and
normalised, unless some value of an attribute is a double or a whole number beyond 64
bits. Doubles inside arrays and objects do no harm, since those turn into text. -/
theorem import_export_normalises (directed : Bool) (ms : List Mention)
    (h : PortableGraph (HostGraph.ofMentions directed ms)) :
    ∃ text g', exportAs (HostGraph.ofMentions directed ms) "graphml" = .ok text ∧
      read false (bytesOf text) = .ok g' ∧ Normalises (HostGraph.ofMentions directed ms) g' := by
  refine ⟨write (HostGraph.ofMentions directed ms), _, if_pos rfl, read_write_eq_reread h, ?_⟩
  exact normalises_of_plain (plain_reread directed ms)

/-- Two vertices and an edge with values that stay, values that turn into text and blanks
that are lost. -/
def mixedCalls : List Mention :=
  [.vertex "a" (Dict.ofList [("size", .int 3), ("name", .str " x < y "), ("tags", .arr [])]),
    .vertex "b" (Dict.ofList [("size", .int (-7)), ("name", .bool true)]),
    .edge "b" "a" (Dict.ofList [("on", .bool false), ("note", .str " ")])]

theorem import_export_normalises_of_mixed :
    ∃ text g', exportAs (HostGraph.ofMentions true mixedCalls) "graphml" = .ok text ∧
      read false (bytesOf text) = .ok g' ∧
      Normalises (HostGraph.ofMentions true mixedCalls) g' :=
  import_export_normalises true mixedCalls (portableGraph_ofMentions true (by decide))

end GraphML

end MotifQuery
