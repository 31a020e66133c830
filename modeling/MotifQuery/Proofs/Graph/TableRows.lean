import MotifQuery.Host.PropertyTables
import MotifQuery.Proofs.Except
import MotifQuery.Proofs.Graph.Plain

/-!
# `MotifQuery.Proofs.Graph.TableRows`: rows with and without both ends

A row of a property table is a call on the graph when it names what the table is about, and
nothing otherwise (`PropertyTables.foldl_addRow`). A cell that is empty names nothing, so a
row without a source or a target adds nothing to the graph
(`PropertyTables.addTable_completeRows`) and no table adds a vertex without a name
(`PropertyTables.not_mem_ids_of_mem_tableMentions`).

In an edge list the first two cells are the ends of an edge whatever they hold. An empty cell
there is the vertex without a name, so rows with one are not left out
(`Csv.edgeGraph_fullRows_eq_iff`).
-/

set_option autoImplicit false

namespace MotifQuery

open HostGraph

theorem Mention.mem_ids_edge {x source target : String} {attributes : Attributes} :
    x ∈ (Mention.edge source target attributes).ids ↔ source = x ∨ target = x := by
  rw [Mention.ids, List.mem_pair, eq_comm, @eq_comm _ x target]

/-- In a directed graph edges are the same when their ends are equal. -/
theorem eraseDupsBy_sameEnds_true (ps : List (String × String)) :
    (ps.eraseDupsBy fun p q => SameEnds true p q) = ps.eraseDups := by
  have hsame : (fun p q : String × String => decide (SameEnds true p q)) = (· == ·) := by
    funext p q
    rw [Bool.eq_iff_iff, decide_eq_true_iff, beq_iff_eq]
    exact or_iff_left fun h : true = false ∧ p = q.swap => nomatch h.1
  rw [hsame, List.eraseDups]

/-! ### Property tables -/

namespace PropertyTables

/-! #### What the cells of a row say -/

/-- Is there a cell under a column of the kind that is not empty? -/
def hasCell (kind : Column) (columns : List Column) (record : List String) : Bool :=
  (columns.zip record).any fun cell => cell.1 = kind ∧ cell.2 ≠ ""

/-- The last cell under a column of the kind that is not empty. -/
def lastCell? (kind : Column) (columns : List Column) (record : List String) : Option String :=
  (((columns.zip record).filter fun cell => cell.1 = kind ∧ cell.2 ≠ "").getLast?).map Prod.snd

theorem lastCell?_eq_none_iff {kind : Column} {columns : List Column} {record : List String} :
    lastCell? kind columns record = none ↔ hasCell kind columns record = false := by
  rw [lastCell?, Option.map_eq_none_iff, List.getLast?_eq_none_iff, List.filter_eq_nil_iff,
    hasCell, List.any_eq_false]

theorem ne_empty_of_lastCell? {kind : Column} {columns : List Column} {record : List String}
    {x : String} (h : lastCell? kind columns record = some x) : x ≠ "" := by
  obtain ⟨cell, hcell, rfl⟩ := Option.map_eq_some_iff.1 h
  have hmem := List.mem_of_getLast? hcell
  exact (of_decide_eq_true (List.mem_filter.1 hmem).2).2

/-- A part of a row that the cells of one kind of column set is the last of them that is not
empty. -/
theorem ofRecord_eq_lastCell? (part : Row → Option String) {kind : Column}
    (hnone : part {} = none)
    (htake : ∀ (row : Row) (column : Column) (raw : String), raw ≠ "" →
      part (row.take column raw) = if column = kind then some raw else part row)
    (columns : List Column) (record : List String) :
    part (Row.ofRecord columns record) = lastCell? kind columns record := by
  unfold Row.ofRecord lastCell?
  -- the cells are taken from the left, so the induction adds one on the right
  induction columns.zip record using List.reverseRecOn with
  | nil => exact hnone
  | append_singleton rest cell ih =>
    rw [List.foldl_concat, List.filter_append]
    by_cases hraw : cell.2 = ""
    · have htaken : ∀ row : Row, row.take cell.1 cell.2 = row := fun row => if_pos hraw
      rw [htaken, ih]
      simp [hraw]
    · rw [htake _ _ _ hraw, ih]
      by_cases hcolumn : cell.1 = kind <;> simp [hraw, hcolumn]

theorem id_ofRecord (columns : List Column) (record : List String) :
    (Row.ofRecord columns record).id = lastCell? .id columns record := by
  refine ofRecord_eq_lastCell? Row.id rfl (fun row column raw hraw => ?_) columns record
  cases column <;> simp [Row.take, hraw]

theorem source_ofRecord (columns : List Column) (record : List String) :
    (Row.ofRecord columns record).source = lastCell? .source columns record := by
  refine ofRecord_eq_lastCell? Row.source rfl (fun row column raw hraw => ?_) columns record
  cases column <;> simp [Row.take, hraw]

theorem target_ofRecord (columns : List Column) (record : List String) :
    (Row.ofRecord columns record).target = lastCell? .target columns record := by
  refine ofRecord_eq_lastCell? Row.target rfl (fun row column raw hraw => ?_) columns record
  cases column <;> simp [Row.take, hraw]

/-! #### Rows as calls -/

/-- The call that a row is, when it names what the table is about. -/
def TableKind.mention? (kind : TableKind) (row : Row) : Option Mention :=
  match kind with
  | .vertices => row.id.map fun id => .vertex id row.attributes
  | .edges => row.source.bind fun source =>
    row.target.map fun target => .edge source target row.attributes

theorem foldl_addRow (kind : TableKind) (rows : List Row) (g : HostGraph) :
    rows.foldl kind.addRow g = (rows.filterMap kind.mention?).foldl mention g := by
  rw [List.foldl_filterMap]
  refine List.foldl_ext _ _ g fun g row _ => ?_
  cases kind with
  | vertices =>
    simp only [TableKind.addRow, addVertexRow, TableKind.mention?]
    cases row.id <;> rfl
  | edges =>
    simp only [TableKind.addRow, addEdgeRow, TableKind.mention?]
    cases row.source <;> cases row.target <;> rfl

/-- The call that a record is. -/
def recordMention? (kind : TableKind) (columns : List Column) (record : List String) :
    Option Mention :=
  kind.mention? (Row.ofRecord columns record)

/-- The calls of a table. -/
def tableMentions (kind : TableKind) (t : Csv.Table) : List Mention :=
  t.rows.filterMap (recordMention? kind (t.header.map Column.ofHeader))

/-- No record names a vertex by an empty cell. -/
theorem not_mem_ids_of_recordMention? {kind : TableKind} {columns : List Column}
    {record : List String} {m : Mention} (h : recordMention? kind columns record = some m) :
    "" ∉ m.ids := by
  cases kind with
  | vertices =>
    obtain ⟨id, hid, rfl⟩ := Option.map_eq_some_iff.1 h
    rw [id_ofRecord] at hid
    simpa [Mention.ids] using (ne_empty_of_lastCell? hid).symm
  | edges =>
    obtain ⟨source, hsource, h⟩ := Option.bind_eq_some_iff.1 h
    obtain ⟨target, htarget, rfl⟩ := Option.map_eq_some_iff.1 h
    rw [source_ofRecord] at hsource
    rw [target_ofRecord] at htarget
    rw [Mention.mem_ids_edge]
    exact not_or.2 ⟨ne_empty_of_lastCell? hsource, ne_empty_of_lastCell? htarget⟩

theorem not_mem_ids_of_mem_tableMentions {kind : TableKind} {t : Csv.Table} {m : Mention}
    (h : m ∈ tableMentions kind t) : "" ∉ m.ids := by
  obtain ⟨record, -, hm⟩ := List.mem_filterMap.1 h
  exact not_mem_ids_of_recordMention? hm

/-! #### Rows as edges -/

/-- Does a record name both ends of an edge? -/
def Complete (columns : List Column) (record : List String) : Bool :=
  hasCell .source columns record && hasCell .target columns record

/-- The ends of the edge that a record names. -/
def recordEnds? (columns : List Column) (record : List String) : Option (String × String) :=
  (lastCell? .source columns record).bind fun source =>
    (lastCell? .target columns record).map fun target => (source, target)

/-- The ends of the edges that the records of a table name. -/
def tableEnds (t : Csv.Table) : List (String × String) :=
  t.rows.filterMap (recordEnds? (t.header.map Column.ofHeader))

theorem recordMention?_edges (columns : List Column) (record : List String) :
    (recordMention? .edges columns record).bind Mention.ends? = recordEnds? columns record := by
  simp only [recordMention?, TableKind.mention?, recordEnds?, source_ofRecord, target_ofRecord]
  cases lastCell? .source columns record <;> cases lastCell? .target columns record <;> rfl

theorem recordMention?_vertices (columns : List Column) (record : List String) :
    (recordMention? .vertices columns record).bind Mention.ends? = none := by
  simp only [recordMention?, TableKind.mention?]
  cases (Row.ofRecord columns record).id <;> rfl

theorem recordMention?_of_not_complete {columns : List Column} {record : List String}
    (h : Complete columns record = false) : recordMention? .edges columns record = none := by
  simp only [recordMention?, TableKind.mention?, source_ofRecord, target_ofRecord]
  rcases Bool.and_eq_false_iff.1 h with hsource | htarget
  · rw [lastCell?_eq_none_iff.2 hsource, Option.bind_none]
  · rw [lastCell?_eq_none_iff.2 htarget]
    exact Option.bind_fun_none _

theorem filterMap_ends?_edges (t : Csv.Table) :
    (tableMentions .edges t).filterMap Mention.ends? = tableEnds t := by
  rw [tableMentions, List.filterMap_filterMap]
  exact List.filterMap_congr fun record _ => recordMention?_edges _ record

theorem filterMap_ends?_vertices (t : Csv.Table) :
    (tableMentions .vertices t).filterMap Mention.ends? = [] := by
  rw [tableMentions, List.filterMap_filterMap, List.filterMap_eq_nil_iff]
  exact fun record _ => recordMention?_vertices _ record

/-! #### Tables -/

/-- A table without the rows that do not name both ends of an edge. -/
def completeRows (t : Csv.Table) : Csv.Table :=
  { t with rows := t.rows.filter (Complete (t.header.map Column.ofHeader)) }

theorem tableMentions_completeRows (t : Csv.Table) :
    tableMentions .edges (completeRows t) = tableMentions .edges t := by
  unfold tableMentions completeRows
  rw [List.filterMap_filter]
  refine List.filterMap_congr fun record _ => ?_
  split
  · rfl
  · next h => exact (recordMention?_of_not_complete (Bool.eq_false_iff.2 h)).symm

/-- The columns that a table needs are there. -/
def HasNeeded (kind : TableKind) (t : Csv.Table) : Prop :=
  ∀ need ∈ kind.needed, need.1 ∈ t.header.map Column.ofHeader

/-- Adding a table makes its calls. -/
theorem addTable_eq (kind : TableKind) (path : String) (t : Csv.Table) (g : HostGraph) :
    addTable kind path t g =
      match kind.needed.find? fun (need : Column × String) =>
        !(t.header.map Column.ofHeader).contains need.1 with
      | some (_, what) =>
        .error (.backendIo (path ++ " has no " ++ what ++ " column") origin)
      | none =>
        if t.malformed then .error (malformed path)
        else .ok ((tableMentions kind t).foldl mention g) := by
  unfold addTable
  simp only [foldl_addRow, List.filterMap_map]
  rfl

/-- A row that does not name both ends of an edge adds nothing. -/
theorem addTable_completeRows (path : String) (t : Csv.Table) (g : HostGraph) :
    addTable .edges path (completeRows t) g = addTable .edges path t g := by
  rw [addTable_eq, addTable_eq, tableMentions_completeRows]
  rfl

theorem addTable_of_needed {kind : TableKind} {t : Csv.Table} (h : HasNeeded kind t)
    (hwell : t.malformed = false) (path : String) (g : HostGraph) :
    addTable kind path t g = .ok ((tableMentions kind t).foldl mention g) := by
  have hnone : kind.needed.find? (fun need : Column × String =>
      !(t.header.map Column.ofHeader).contains need.1) = none := by
    rw [List.find?_eq_none]
    intro need hneed
    simpa using h need hneed
  rw [addTable_eq, hnone]
  exact if_neg (Bool.eq_false_iff.1 hwell)

theorem eq_of_addTable {kind : TableKind} {path : String} {t : Csv.Table} {g g' : HostGraph}
    (h : addTable kind path t g = .ok g') : g' = (tableMentions kind t).foldl mention g := by
  rw [addTable_eq] at h
  split at h
  · cases h
  · split at h
    · cases h
    · cases h
      rfl

/-! #### Directories -/

/-- The table in a file. -/
def table? (d : Disk) (path : String) : Option Csv.Table :=
  (d.read path).toOption.bind Csv.readTable?

theorem exists_table_of_addFile {d : Disk} {kind : TableKind} {path : String}
    {g g' : HostGraph} (h : addFile d kind g path = .ok g') :
    ∃ t, table? d path = some t ∧ addTable kind path t g = .ok g' := by
  unfold addFile at h
  split at h
  · next t ht => exact ⟨t, ht, h⟩
  · cases h

/-- Reading files makes the calls of their tables, in order. -/
theorem eq_of_foldlM_addFile {d : Disk} {kind : TableKind} {paths : List String}
    {g g' : HostGraph} (h : paths.foldlM (addFile d kind) g = .ok g') :
    g' = ((paths.filterMap (table? d)).flatMap (tableMentions kind)).foldl mention g := by
  induction paths generalizing g with
  | nil =>
    cases h
    rfl
  | cons path rest ih =>
    rw [List.foldlM_cons] at h
    obtain ⟨g₁, hfile, hrest⟩ := bind_eq_ok_iff.1 h
    obtain ⟨t, ht, htable⟩ := exists_table_of_addFile hfile
    rw [ih hrest, eq_of_addTable htable, List.filterMap_cons_some ht, List.flatMap_cons,
      List.foldl_append]

/-- The calls of tables of vertices and tables of edges. -/
def directoryMentions (vertices edges : List Csv.Table) : List Mention :=
  vertices.flatMap (tableMentions .vertices) ++ edges.flatMap (tableMentions .edges)

/-- The graph of a directory is the one that the calls of its tables make, those of vertices
first. -/
theorem eq_of_readDirectory {options : OpenCypherOptions} {d : Disk} {dir : String}
    {g : HostGraph} (h : readDirectory options d dir = .ok g) :
    ∃ vertices edges : List String,
      tablesIn d dir options.vertexStem = .ok vertices ∧
      tablesIn d dir options.edgeStem = .ok edges ∧
      g = ofMentions true
        (directoryMentions (vertices.filterMap (table? d)) (edges.filterMap (table? d))) := by
  unfold readDirectory at h
  obtain ⟨vertices, hvertices, h⟩ := bind_eq_ok_iff.1 h
  obtain ⟨edges, hedges, h⟩ := bind_eq_ok_iff.1 h
  refine ⟨vertices, edges, hvertices, hedges, ?_⟩
  split at h
  · cases h
  · obtain ⟨g₁, hfirst, hsecond⟩ := bind_eq_ok_iff.1 h
    rw [ofMentions, directoryMentions, List.foldl_append, ← eq_of_foldlM_addFile hfirst]
    exact eq_of_foldlM_addFile hsecond

theorem not_mem_ids_directoryMentions (vertices edges : List Csv.Table) :
    "" ∉ (directoryMentions vertices edges).flatMap Mention.ids := by
  intro h
  obtain ⟨m, hm, hempty⟩ := List.mem_flatMap.1 h
  rcases List.mem_append.1 hm with hm | hm
  all_goals
    obtain ⟨t, -, ht⟩ := List.mem_flatMap.1 hm
    exact not_mem_ids_of_mem_tableMentions ht hempty

theorem filterMap_ends?_directoryMentions (vertices edges : List Csv.Table) :
    (directoryMentions vertices edges).filterMap Mention.ends? = edges.flatMap tableEnds := by
  rw [directoryMentions, List.filterMap_append, List.filterMap_flatMap, List.filterMap_flatMap]
  simp only [filterMap_ends?_vertices, filterMap_ends?_edges]
  rw [List.flatMap_eq_nil_iff.2 fun _ _ => rfl, List.nil_append]

/-- After a table of edges there are the edges of before and those of the rows that name both
ends, and the vertex without a name only when it was there before. -/
theorem exists_graph_of_needed (path : String) (t : Csv.Table) (ms : List Mention)
    (hneeded : HasNeeded .edges t) (hwell : t.malformed = false) :
    ∃ g, addTable .edges path t (ofMentions true ms) = .ok g ∧
      g.ends = (ms.filterMap Mention.ends? ++ tableEnds t).eraseDups ∧
      ("" ∈ g.ids ↔ "" ∈ ms.flatMap Mention.ids) := by
  have hcalls := ofMentions_represents true (ms ++ tableMentions .edges t)
  refine ⟨ofMentions true (ms ++ tableMentions .edges t), ?_, ?_, ?_⟩
  · rw [addTable_of_needed hneeded hwell, ofMentions, ofMentions, List.foldl_append]
  · rw [hcalls.ends_order, eraseDupsBy_sameEnds_true, List.filterMap_append,
      filterMap_ends?_edges]
  · -- the calls of the table name no vertex by an empty cell
    rw [hcalls.ids_order, List.mem_eraseDups, List.flatMap_append, List.mem_append]
    refine or_iff_left fun h => ?_
    obtain ⟨m, hm, hempty⟩ := List.mem_flatMap.1 h
    exact not_mem_ids_of_mem_tableMentions hm hempty

theorem not_mem_ids_of_readDirectory {options : OpenCypherOptions} {d : Disk} {dir : String}
    {g : HostGraph} (h : readDirectory options d dir = .ok g) : "" ∉ g.ids := by
  obtain ⟨vertices, edges, -, -, rfl⟩ := eq_of_readDirectory h
  rw [(ofMentions_represents _ _).ids_order, List.mem_eraseDups]
  exact not_mem_ids_directoryMentions _ _

theorem ends_of_readDirectory {options : OpenCypherOptions} {d : Disk} {dir : String}
    {g : HostGraph} (h : readDirectory options d dir = .ok g) :
    ∃ paths, tablesIn d dir options.edgeStem = .ok paths ∧
      g.ends = ((paths.filterMap (table? d)).flatMap tableEnds).eraseDups := by
  obtain ⟨vertices, edges, -, hedges, rfl⟩ := eq_of_readDirectory h
  refine ⟨edges, hedges, ?_⟩
  rw [(ofMentions_represents _ _).ends_order, eraseDupsBy_sameEnds_true,
    filterMap_ends?_directoryMentions]

end PropertyTables

/-! ### Edge lists -/

namespace Csv

/-- The ends of the edge that a row is. -/
def rowEnds? : List String → Option (String × String)
  | source :: target :: _ => some (source, target)
  | _ => none

/-- One of the ends of a row is an empty cell. -/
def BlankEnd (row : List String) : Prop :=
  ∃ p, rowEnds? row = some p ∧ (p.1 = "" ∨ p.2 = "")

instance (row : List String) : Decidable (BlankEnd row) :=
  decidable_of_iff ((rowEnds? row).any fun p => p.1 = "" ∨ p.2 = "") (by
    rw [Option.any_eq_true]
    simp only [decide_eq_true_eq, BlankEnd])

/-- The call that a row is. -/
def rowMention? (header row : List String) : Option Mention :=
  (rowEnds? row).map fun p => .edge p.1 p.2 (rowAttributes header row)

theorem edgeGraph_eq_ofMentions (t : Table) :
    edgeGraph t = ofMentions false (t.rows.filterMap (rowMention? t.header)) := by
  unfold edgeGraph ofMentions
  rw [List.foldl_filterMap]
  refine List.foldl_ext _ _ _ fun g row _ => ?_
  match row with
  | [] => rfl
  | [_] => rfl
  | _ :: _ :: _ => rfl

/-- Every row is an edge, whatever its first two cells hold. -/
theorem ends_edgeGraph (t : Table) :
    (edgeGraph t).ends
      = (t.rows.filterMap rowEnds?).eraseDupsBy fun p q => SameEnds false p q := by
  rw [edgeGraph_eq_ofMentions, (ofMentions_represents _ _).ends_order, List.filterMap_filterMap]
  congr 1
  refine List.filterMap_congr fun row _ => ?_
  unfold rowMention?
  cases rowEnds? row <;> rfl

/-- There is a vertex without a name exactly when some row has an empty end. -/
theorem empty_mem_ids_edgeGraph_iff (t : Table) :
    "" ∈ (edgeGraph t).ids ↔ ∃ row ∈ t.rows, BlankEnd row := by
  rw [edgeGraph_eq_ofMentions, (ofMentions_represents _ _).ids_order, List.mem_eraseDups]
  simp only [List.mem_flatMap, List.mem_filterMap, rowMention?, Option.map_eq_some_iff]
  constructor
  · rintro ⟨_, ⟨row, hrow, p, hp, rfl⟩, hempty⟩
    exact ⟨row, hrow, p, hp, Mention.mem_ids_edge.1 hempty⟩
  · rintro ⟨row, hrow, p, hp, hempty⟩
    exact ⟨_, ⟨row, hrow, p, hp, rfl⟩, Mention.mem_ids_edge.2 hempty⟩

/-- A table without the rows that have an empty end. -/
def fullRows (t : Table) : Table :=
  { t with rows := t.rows.filter fun row => ¬ BlankEnd row }

/-- Rows with an empty end add something, so leaving them out changes nothing only when there
are none. -/
theorem edgeGraph_fullRows_eq_iff (t : Table) :
    edgeGraph (fullRows t) = edgeGraph t ↔ ∀ row ∈ t.rows, ¬ BlankEnd row := by
  constructor
  · -- the vertex without a name tells the two graphs apart
    intro h row hrow hblank
    have hmem : "" ∈ (edgeGraph (fullRows t)).ids := by
      rw [h]
      exact (empty_mem_ids_edgeGraph_iff t).2 ⟨row, hrow, hblank⟩
    obtain ⟨row', hrow', hblank'⟩ := (empty_mem_ids_edgeGraph_iff _).1 hmem
    exact of_decide_eq_true (List.mem_filter.1 hrow').2 hblank'
  · intro h
    have hrows : t.rows.filter (fun row => ¬ BlankEnd row) = t.rows :=
      List.filter_eq_self.2 fun row hrow => decide_eq_true (h row hrow)
    rw [fullRows, hrows]

theorem readEdgeList_eq_ok_iff {bs : Bytes} {t : Table} {g : HostGraph}
    (ht : readTable? bs = some t) :
    readEdgeList bs = .ok g ↔ 2 ≤ t.header.length ∧ t.malformed = false ∧ g = edgeGraph t := by
  unfold readEdgeList
  rw [ht]
  by_cases hlength : t.header.length < 2
  · simp [hlength, Nat.not_le.2 hlength]
  · cases hwell : t.malformed <;> simp [hlength, hwell, Nat.not_lt.1 hlength, @eq_comm _ g]

end Csv

/-! ### Both readers -/

section
open PropertyTables

/-- In property tables, rows without both ends of an edge add nothing, the edges are those of
the other rows, and no vertex is without a name. In an edge list every row of two cells is an
edge. There the same holds exactly when no row has an empty end. -/
theorem rows_as_edges (t : Csv.Table) :
    (∀ (path : String) (g : HostGraph),
      addTable .edges path (completeRows t) g = addTable .edges path t g) ∧
    (∀ (path : String) (ms : List Mention), HasNeeded .edges t → t.malformed = false →
      ∃ g, addTable .edges path t (ofMentions true ms) = .ok g ∧
        g.ends = (ms.filterMap Mention.ends? ++ tableEnds t).eraseDups ∧
        ("" ∈ g.ids ↔ "" ∈ ms.flatMap Mention.ids)) ∧
    (∀ (options : OpenCypherOptions) (d : Disk) (dir : String) (g : HostGraph),
      readDirectory options d dir = .ok g → "" ∉ g.ids ∧
        ∃ paths, tablesIn d dir options.edgeStem = .ok paths ∧
          g.ends = ((paths.filterMap (table? d)).flatMap tableEnds).eraseDups) ∧
    (∀ (bs : Bytes) (g : HostGraph), Csv.readTable? bs = some t →
      (Csv.readEdgeList bs = .ok g ↔
        2 ≤ t.header.length ∧ t.malformed = false ∧ g = Csv.edgeGraph t)) ∧
    (Csv.edgeGraph t).ends
      = ((t.rows.filterMap Csv.rowEnds?).eraseDupsBy fun p q => SameEnds false p q) ∧
    ("" ∈ (Csv.edgeGraph t).ids ↔ ∃ row ∈ t.rows, Csv.BlankEnd row) ∧
    (Csv.edgeGraph (Csv.fullRows t) = Csv.edgeGraph t ↔ ∀ row ∈ t.rows, ¬ Csv.BlankEnd row) :=
  ⟨fun path g => addTable_completeRows path t g, fun path ms => exists_graph_of_needed path t ms,
    fun _ _ _ _ h => ⟨not_mem_ids_of_readDirectory h, ends_of_readDirectory h⟩,
    fun _ _ h => Csv.readEdgeList_eq_ok_iff h, Csv.ends_edgeGraph t,
    Csv.empty_mem_ids_edgeGraph_iff t, Csv.edgeGraph_fullRows_eq_iff t⟩

/-- A directory with a table of edges in which a target is missing. -/
def missingTarget : Disk where
  nodes := Dict.ofList [
    ("h", .directory),
    ("h/edges.csv", .file (Text.bytesOf "source,target\na,\nb,c\n"))]

theorem names_missingTarget : missingTarget.names "h" = .ok ["edges.csv"] := by
  have hself : Disk.nameIn? "h" "h" = none := by decide +kernel
  have hfile : Disk.nameIn? "h" "h/edges.csv" = some "edges.csv" := by
    have hafter : Text.after? "h/" "h/edges.csv" = some "edges.csv" := by decide +kernel
    simp [Disk.nameIn?, hafter, String.contains_char_eq]
  have hkeys : missingTarget.nodes.keys = ["h", "h/edges.csv"] := by decide +kernel
  have hnames : missingTarget.names "h"
      = .ok (missingTarget.nodes.keys.filterMap (Disk.nameIn? "h")) := by rfl
  rw [hnames, hkeys, List.filterMap_cons_none hself, List.filterMap_cons_some hfile]
  rfl

/-- The row without a target is left out, from the directory and from the table alone. -/
theorem rows_as_edges_of_missing_target :
    (∃ g, readDirectory {} missingTarget "h" = .ok g ∧ "" ∉ g.ids ∧ g.ends = [("b", "c")]) ∧
    ∃ g, addTable .edges "h/edges.csv" ⟨["source", "target"], [["a", ""], ["b", "c"]], false⟩
      (ofMentions true []) = .ok g ∧ g.ends = [("b", "c")] := by
  have hneeded : HasNeeded .edges ⟨["source", "target"], [["a", ""], ["b", "c"]], false⟩ := by
    unfold HasNeeded
    decide
  have hread : (readDirectory {} missingTarget "h").toOption.any (fun _ => true) = true := by
    simp only [readDirectory, tablesIn, names_missingTarget]
    decide +kernel
  have hpaths : tablesIn missingTarget "h" "edge" = .ok ["h/edges.csv"] := by
    rw [tablesIn, names_missingTarget]
    rfl
  obtain ⟨-, htable, hdirectory, -⟩ :=
    rows_as_edges ⟨["source", "target"], [["a", ""], ["b", "c"]], false⟩
  constructor
  · obtain ⟨g, hg, -⟩ := exists_of_any_toOption hread
    obtain ⟨hempty, paths, hlisted, hends⟩ := hdirectory {} missingTarget "h" g hg
    obtain rfl := Except.ok.inj (hpaths.symm.trans hlisted)
    refine ⟨g, hg, hempty, hends.trans ?_⟩
    decide +kernel
  · obtain ⟨g, hg, hends, -⟩ := htable "h/edges.csv" [] hneeded rfl
    refine ⟨g, hg, hends.trans ?_⟩
    decide +kernel

/-- Not every vertex of an edge list has a name. -/
theorem not_forall_named_ends : ¬ ∀ (bs : Bytes) (g : HostGraph),
    Csv.readEdgeList bs = .ok g → "" ∉ g.ids := by
  intro h
  have htable : Csv.readTable? (Text.bytesOf "source,target\na,\nb,c\n")
      = some ⟨["source", "target"], [["a", ""], ["b", "c"]], false⟩ := by
    decide +kernel
  refine h _ _ ((Csv.readEdgeList_eq_ok_iff htable).2 ⟨Nat.le_refl _, rfl, rfl⟩) ?_
  rw [Csv.empty_mem_ids_edgeGraph_iff]
  exact ⟨["a", ""], List.mem_cons_self, ("a", ""), rfl, .inr rfl⟩

end

end MotifQuery
