import MotifQuery.Proofs.Disk.Directory
import MotifQuery.Proofs.Graph.TableColumns

/-!
# `MotifQuery.Proofs.Graph.TableLayout`: the layout of a directory of tables

The graph of a directory of tables depends neither on the order in which the directory is
enumerated nor on the order of the columns in a table.

* The files are put in the order of their paths, so any enumeration gives the same files in the
  same order (`PropertyTables.filesAmong_eq`).
* Files are read when each of them is a table with the columns that it needs and no malformed
  record (`PropertyTables.Sound`), and otherwise there is one code for every failure
  (`PropertyTables.readFiles_eq_ok_iff`, `PropertyTables.code_of_readFiles`).
* A table whose columns stand in another order is as sound and makes the same calls
  (`PropertyTables.Alike`).
-/

set_option autoImplicit false

namespace MotifQuery.PropertyTables

open Text HostGraph

/-! ### Enumerating a directory -/

/-- The files among the names of a listing that begin with `stem`, in the order of their
paths. -/
def filesAmong (d : Disk) (dir stem : String) (listing : List String) : List String :=
  (((listing.filter fun name => startsWith name stem).map (Disk.join dir)).filter
    d.isFile).mergeSort fun path other => path ≤ other

/-- The files of a directory with a stem, by name. -/
def filesNamed (d : Disk) (dir stem : String) (names : List String) : List String :=
  ((names.filter fun name => startsWith name stem).map (Disk.join dir)).filter d.isFile

section
variable {d : Disk} {dir : String} {names listing : List String}

theorem tablesIn_eq (hnames : d.names dir = .ok names) (stem : String) :
    tablesIn d dir stem = .ok (filesNamed d dir stem names) := by
  rw [tablesIn, hnames]
  rfl

/-- The paths of the files are in ascending order when the names are. -/
theorem pairwise_filesNamed (hnames : d.names dir = .ok names) (stem : String) :
    (filesNamed d dir stem names).Pairwise (· < ·) := by
  obtain ⟨p, hopens⟩ := Disk.exists_opens_of_names hnames
  refine (List.pairwise_map.2 ?_).filter _
  refine ((hopens.pairwise_names hnames).filter _).imp_of_mem fun hname hother hlt => ?_
  have hstroke : ∀ {name : String}, name ∈ names.filter (fun name => startsWith name stem) →
      '/' ∉ name.toList :=
    fun hname => ((hopens.mem_names_iff hnames).1 (List.mem_filter.1 hname).1).1.2
  rw [Disk.join_eq_append dir (hstroke hname), Disk.join_eq_append dir (hstroke hother)]
  exact append_lt_append_iff.2 hlt

/-- Any enumeration of the directory gives the files by name. -/
theorem filesAmong_eq (hnames : d.names dir = .ok names) (hperm : listing.Perm names)
    (stem : String) : filesAmong d dir stem listing = filesNamed d dir stem names := by
  have hfiles : (filesAmong d dir stem listing).Perm (filesNamed d dir stem names) :=
    (List.mergeSort_perm _ _).trans (((hperm.filter _).map _).filter _)
  have hsorted : (filesAmong d dir stem listing).Pairwise (· ≤ ·) := by
    refine (List.pairwise_mergeSort (fun _ _ _ hab hbc => ?_) (fun a b => ?_) _).imp
      of_decide_eq_true
    · exact decide_eq_true (String.le_trans (of_decide_eq_true hab) (of_decide_eq_true hbc))
    · simpa using String.le_total a b
  -- two ascending lists of the same files are one
  refine hfiles.eq_of_pairwise (fun _ _ _ _ => String.le_antisymm) hsorted ?_
  exact (pairwise_filesNamed hnames stem).imp fun hlt => String.not_lt.1 (String.lt_asymm hlt)

/-- The files with a stem are those of the names in order that begin with it. -/
theorem filesNamed_eq_map (d : Disk) (dir stem : String) (names : List String) :
    filesNamed d dir stem names
      = (names.filter fun name => startsWith name stem && d.isFile (Disk.join dir name)).map
          (Disk.join dir) := by
  rw [filesNamed, List.filter_map, List.filter_filter]
  congr 2
  funext name
  exact Bool.and_comm _ _

end

/-! ### Reading files -/

/-- Reads the graph of files. -/
def readFiles (options : OpenCypherOptions) (d : Disk) (dir : String)
    (vertices edges : List String) : Except Failure HostGraph := do
  if vertices.isEmpty ∧ edges.isEmpty then
    throw (.backendIo ("No " ++ options.vertexStem ++ "* or " ++ options.edgeStem
      ++ "* CSV files in " ++ dir) origin)
  let g ← vertices.foldlM (addFile d .vertices) (.empty true)
  edges.foldlM (addFile d .edges) g

/-- Reads the graph of a directory that is enumerated once for each kind of table. -/
def readEnumerated (options : OpenCypherOptions) (d : Disk) (dir : String)
    (listing listing' : List String) : Except Failure HostGraph :=
  readFiles options d dir (filesAmong d dir options.vertexStem listing)
    (filesAmong d dir options.edgeStem listing')

/-- A file is a table of the kind. -/
def Sound (kind : TableKind) (file : Option Csv.Table) : Prop :=
  ∃ t, file = some t ∧ HasNeeded kind t ∧ t.malformed = false

section
variable {options : OpenCypherOptions} {d : Disk} {dir : String} {g g' : HostGraph}
  {kind : TableKind} {path : String} {paths vertices edges : List String} {fault : Failure}

theorem load_eq_readDirectory (options : OpenCypherOptions) (d : Disk) (dir : String) :
    load options d (propertyScheme ++ dir) = readDirectory options d dir := by
  rw [load, afterScheme, after?_eq_some_iff.2 rfl]
  rfl

theorem readDirectory_eq_readFiles {names : List String} (hnames : d.names dir = .ok names) :
    readDirectory options d dir = readFiles options d dir
      (filesNamed d dir options.vertexStem names) (filesNamed d dir options.edgeStem names) := by
  rw [readDirectory, tablesIn_eq hnames, tablesIn_eq hnames]
  rfl

theorem addFile_eq (d : Disk) (kind : TableKind) (g : HostGraph) (path : String) :
    addFile d kind g path
      = (table? d path).elim (.error (malformed path)) fun t => addTable kind path t g := by
  rw [addFile, table?]
  cases (d.read path).toOption.bind Csv.readTable? <;> rfl

/-- A table is added when it has the columns that it needs and no malformed record. -/
theorem addTable_eq_ok_iff {t : Csv.Table} :
    addTable kind path t g = .ok g' ↔
      HasNeeded kind t ∧ t.malformed = false ∧ g' = (tableMentions kind t).foldl mention g := by
  constructor
  · intro h
    refine ⟨fun need hneed => ?_, ?_, eq_of_addTable h⟩
    · rw [addTable_eq] at h
      split at h
      · cases h
      · next hnone => simpa using List.find?_eq_none.1 hnone need hneed
    · rw [addTable_eq] at h
      split at h
      · cases h
      · split at h
        · cases h
        · next hwell => exact Bool.eq_false_iff.2 hwell
  · rintro ⟨hneeded, hwell, rfl⟩
    exact addTable_of_needed hneeded hwell path g

theorem addFile_eq_ok_iff :
    addFile d kind g path = .ok g' ↔ Sound kind (table? d path) ∧
      g' = ((table? d path).elim [] (tableMentions kind)).foldl mention g := by
  rw [addFile_eq, Sound]
  cases table? d path with
  | none => exact iff_of_false nofun (fun h => nomatch h.1)
  | some t =>
    rw [Option.elim_some, addTable_eq_ok_iff, Option.elim_some]
    constructor
    · rintro ⟨hneeded, hwell, hg⟩
      exact ⟨⟨t, rfl, hneeded, hwell⟩, hg⟩
    · rintro ⟨⟨t, ⟨⟩, hneeded, hwell⟩, hg⟩
      exact ⟨hneeded, hwell, hg⟩

/-- Files are read when each of them is sound, and make the calls of their tables. -/
theorem foldlM_addFile_eq_ok_iff :
    paths.foldlM (addFile d kind) g = .ok g' ↔
      (∀ path ∈ paths, Sound kind (table? d path)) ∧
        g' = ((paths.filterMap (table? d)).flatMap (tableMentions kind)).foldl mention g := by
  refine ⟨fun h => ⟨?_, eq_of_foldlM_addFile h⟩, ?_⟩
  · induction paths generalizing g with
    | nil => exact fun _ hpath => absurd hpath List.not_mem_nil
    | cons first rest ih =>
      rw [List.foldlM_cons] at h
      obtain ⟨g₁, hfirst, hrest⟩ := bind_eq_ok_iff.1 h
      exact List.forall_mem_cons.2 ⟨(addFile_eq_ok_iff.1 hfirst).1, ih hrest⟩
  · rintro ⟨hsound, rfl⟩
    induction paths generalizing g with
    | nil => rfl
    | cons first rest ih =>
      obtain ⟨hfirst, hrest⟩ := List.forall_mem_cons.1 hsound
      rw [List.foldlM_cons, bind_eq_ok_iff]
      refine ⟨_, addFile_eq_ok_iff.2 ⟨hfirst, rfl⟩, (ih hrest).trans ?_⟩
      obtain ⟨t, ht, -⟩ := hfirst
      rw [List.filterMap_cons_some ht, List.flatMap_cons, List.foldl_append, ht]
      rfl

theorem readFiles_eq_ok_iff :
    readFiles options d dir vertices edges = .ok g ↔
      (vertices ≠ [] ∨ edges ≠ []) ∧
        (∀ path ∈ vertices, Sound .vertices (table? d path)) ∧
        (∀ path ∈ edges, Sound .edges (table? d path)) ∧
        g = ofMentions true
          (directoryMentions (vertices.filterMap (table? d)) (edges.filterMap (table? d))) := by
  have hempty : (vertices.isEmpty = true ∧ edges.isEmpty = true)
      ↔ ¬ (vertices ≠ [] ∨ edges ≠ []) := by
    rw [List.isEmpty_iff, List.isEmpty_iff, not_or, not_not, not_not]
  unfold readFiles
  by_cases hfiles : vertices ≠ [] ∨ edges ≠ []
  -- the tables of edges go on from the graph that the tables of vertices leave
  · rw [if_neg (fun h => hempty.1 h hfiles)]
    show (vertices.foldlM (addFile d .vertices) (.empty true) >>= fun g =>
      edges.foldlM (addFile d .edges) g) = .ok g ↔ _
    rw [bind_eq_ok_iff]
    simp only [foldlM_addFile_eq_ok_iff, ofMentions, directoryMentions, List.foldl_append]
    constructor
    · rintro ⟨_, ⟨hvertices, rfl⟩, hedges, hg⟩
      exact ⟨hfiles, hvertices, hedges, hg⟩
    · rintro ⟨-, hvertices, hedges, hg⟩
      exact ⟨_, ⟨hvertices, rfl⟩, hedges, hg⟩
  · rw [if_pos (hempty.2 hfiles)]
    refine iff_of_false (fun h => ?_) fun h => hfiles h.1
    cases h

/-! ### Failures -/

theorem code_of_addFile (h : addFile d kind g path = .error fault) :
    fault.code = "backend_io" := by
  rw [addFile_eq] at h
  cases ht : table? d path with
  | none =>
    rw [ht] at h
    cases h
    rfl
  | some t =>
    rw [ht, Option.elim_some, addTable_eq] at h
    split at h
    · cases h
      rfl
    · split at h
      · cases h
        rfl
      · cases h

theorem code_of_foldlM_addFile (h : paths.foldlM (addFile d kind) g = .error fault) :
    fault.code = "backend_io" := by
  induction paths generalizing g with
  | nil => cases h
  | cons first rest ih =>
    rw [List.foldlM_cons] at h
    cases hfirst : addFile d kind g first with
    | error fault' =>
      rw [hfirst] at h
      cases h
      exact code_of_addFile hfirst
    | ok g₁ =>
      rw [hfirst] at h
      exact ih h

/-- Whatever is wrong with the files, the failure has the one code. -/
theorem code_of_readFiles (h : readFiles options d dir vertices edges = .error fault) :
    fault.code = "backend_io" := by
  unfold readFiles at h
  split at h
  · cases h
    rfl
  · cases hvertices : vertices.foldlM (addFile d .vertices) (.empty true) with
    | error fault' =>
      rw [hvertices] at h
      cases h
      exact code_of_foldlM_addFile hvertices
    | ok g₁ =>
      rw [hvertices] at h
      exact code_of_foldlM_addFile h

end

/-- Runs that succeed alike and fail with one code end alike. -/
theorem mapError_code_eq {α : Type} {x y : Except Failure α} {code : String}
    (hok : ∀ a, x = .ok a ↔ y = .ok a) (hx : ∀ fault, x = .error fault → fault.code = code)
    (hy : ∀ fault, y = .error fault → fault.code = code) :
    x.mapError Failure.code = y.mapError Failure.code := by
  cases x with
  | ok a => rw [(hok a).1 rfl]
  | error fault =>
    cases y with
    | ok a => exact nomatch (hok a).2 rfl
    | error fault' => exact congrArg Except.error ((hx _ rfl).trans (hy _ rfl).symm)

/-! ### Files with their columns in another order -/

/-- What is in two files is the same, or the same with the columns in another order, where no
two columns fill one slot. -/
inductive Alike : Option Csv.Table → Option Csv.Table → Prop where
  | same (file : Option Csv.Table) : Alike file file
  | reordered (t : Csv.Table) (order : List Nat) :
    order.Perm (List.range t.header.length) → DistinctSlots (columnsOf t) →
      Alike (some t) (some (t.reorder order))

theorem Alike.sound_iff {file file' : Option Csv.Table} (h : Alike file file')
    (kind : TableKind) : Sound kind file' ↔ Sound kind file := by
  cases h with
  | same => exact Iff.rfl
  | reordered t order horder _ =>
    simp only [Sound, Option.some.injEq, exists_eq_left', hasNeeded_reorder kind horder]
    rfl

theorem table?_width {d : Disk} {path : String} {t : Csv.Table} (h : table? d path = some t) :
    ∀ row ∈ t.rows, row.length = t.header.length := by
  obtain ⟨bs, -, ht⟩ := Option.bind_eq_some_iff.1 h
  exact fun _ hrow => Csv.length_of_readTable? ht hrow

/-- Files that are alike make the same calls. -/
theorem tableMentions_alike {d e : Disk} {paths : List String}
    (h : ∀ path ∈ paths, Alike (table? d path) (table? e path)) (kind : TableKind) :
    (paths.filterMap (table? e)).flatMap (tableMentions kind)
      = (paths.filterMap (table? d)).flatMap (tableMentions kind) := by
  induction paths with
  | nil => rfl
  | cons path rest ih =>
    obtain ⟨hpath, hrest⟩ := List.forall_mem_cons.1 h
    generalize hfile : table? d path = file at hpath
    generalize hfile' : table? e path = file' at hpath
    rw [List.filterMap_cons, List.filterMap_cons, hfile, hfile']
    cases hpath with
    | same =>
      cases file with
      | none => exact ih hrest
      | some t => rw [List.flatMap_cons, List.flatMap_cons, ih hrest]
    | reordered t order horder hdistinct =>
      rw [List.flatMap_cons, List.flatMap_cons, ih hrest,
        tableMentions_reorder kind (table?_width hfile) horder hdistinct]

/-- Does the name begin as those of the tables do? -/
def Chosen (options : OpenCypherOptions) (name : String) : Prop :=
  startsWith name options.vertexStem = true ∨ startsWith name options.edgeStem = true

/-- The directory of one disk is that of the other with columns of the tables in another
order. -/
structure Relaid (options : OpenCypherOptions) (dir : String) (names : List String)
    (d e : Disk) : Prop where
  listed : e.names dir = .ok names
  isFile : ∀ name ∈ names, Chosen options name →
    e.isFile (Disk.join dir name) = d.isFile (Disk.join dir name)
  tables : ∀ name ∈ names, Chosen options name →
    Alike (table? d (Disk.join dir name)) (table? e (Disk.join dir name))

namespace Relaid
variable {options : OpenCypherOptions} {d e : Disk} {dir stem : String} {names : List String}

theorem filesNamed_eq (h : Relaid options dir names d e)
    (hstem : ∀ name, startsWith name stem = true → Chosen options name) :
    filesNamed e dir stem names = filesNamed d dir stem names := by
  refine List.filter_congr fun path hpath => ?_
  obtain ⟨name, hname, rfl⟩ := List.mem_map.1 hpath
  obtain ⟨hname, hstart⟩ := List.mem_filter.1 hname
  exact h.isFile name hname (hstem name hstart)

theorem alike (h : Relaid options dir names d e)
    (hstem : ∀ name, startsWith name stem = true → Chosen options name) :
    ∀ path ∈ filesNamed d dir stem names, Alike (table? d path) (table? e path) := by
  intro path hpath
  obtain ⟨name, hname, rfl⟩ := List.mem_map.1 (List.mem_filter.1 hpath).1
  obtain ⟨hname, hstart⟩ := List.mem_filter.1 hname
  exact h.tables name hname (hstem name hstart)

/-- Both directories are read alike. -/
theorem mapError_readDirectory (h : Relaid options dir names d e)
    (hnames : d.names dir = .ok names) :
    (readDirectory options e dir).mapError Failure.code
      = (readDirectory options d dir).mapError Failure.code := by
  have hvertices : ∀ path ∈ filesNamed d dir options.vertexStem names,
      Alike (table? d path) (table? e path) := h.alike fun _ => .inl
  have hedges : ∀ path ∈ filesNamed d dir options.edgeStem names,
      Alike (table? d path) (table? e path) := h.alike fun _ => .inr
  rw [readDirectory_eq_readFiles h.listed, readDirectory_eq_readFiles hnames,
    h.filesNamed_eq fun _ => .inl, h.filesNamed_eq fun _ => .inr]
  -- every failure has the one code, so it does not matter which file fails first
  refine mapError_code_eq (fun g => ?_) (fun _ => code_of_readFiles) (fun _ => code_of_readFiles)
  rw [readFiles_eq_ok_iff, readFiles_eq_ok_iff, directoryMentions, directoryMentions,
    tableMentions_alike hvertices, tableMentions_alike hedges]
  refine and_congr_right fun _ => and_congr ?_ (and_congr_left fun _ => ?_)
  · exact forall₂_congr fun path hpath => (hvertices path hpath).sound_iff _
  · exact forall₂_congr fun path hpath => (hedges path hpath).sound_iff _

end Relaid

/-! ### The graph of a directory -/

/-- The graph is the one that the files make, those of vertices first, and a later cell overrides
an earlier one at the same attribute. -/
structure IsFold (d : Disk) (vertices edges : List String) (g : HostGraph) : Prop where
  sound_vertices : ∀ path ∈ vertices, Sound .vertices (table? d path)
  sound_edges : ∀ path ∈ edges, Sound .edges (table? d path)
  graph : g = ofMentions true
    (directoryMentions (vertices.filterMap (table? d)) (edges.filterMap (table? d)))
  vertex_values : ∀ v ∈ g.vertices, ∀ name, v.attributes.get? name
    = lookupEntry name (writesOf (lastCell? .id) v.id (vertices.filterMap (table? d))).reverse
  edge_values : ∀ e ∈ g.edges, ∀ name, e.attributes.get? name
    = lookupEntry name (writesOf recordEnds? e.ends (edges.filterMap (table? d))).reverse

theorem isFold_of_sound {d : Disk} {vertices edges : List String}
    (hvertices : ∀ path ∈ vertices, Sound .vertices (table? d path))
    (hedges : ∀ path ∈ edges, Sound .edges (table? d path)) :
    IsFold d vertices edges (ofMentions true
      (directoryMentions (vertices.filterMap (table? d)) (edges.filterMap (table? d)))) := by
  have hcalls := ofMentions_represents true
    (directoryMentions (vertices.filterMap (table? d)) (edges.filterMap (table? d)))
  constructor
  case sound_vertices => exact hvertices
  case sound_edges => exact hedges
  case graph => rfl
  case vertex_values =>
    exact fun v hv name => (hcalls.vertex_values v hv name).trans (vertexValue_ofTables _ _ _ _)
  case edge_values =>
    exact fun e he name => (hcalls.edge_values e he name).trans (edgeValue_ofTables _ _ _ _)

/-- Files are read exactly when there is one and all are sound. -/
theorem readFiles_eq_ok_iff_isFold {options : OpenCypherOptions} {d : Disk} {dir : String}
    {vertices edges : List String} {g : HostGraph} :
    readFiles options d dir vertices edges = .ok g ↔
      (vertices ≠ [] ∨ edges ≠ []) ∧ IsFold d vertices edges g := by
  rw [readFiles_eq_ok_iff]
  refine and_congr_right fun _ => ⟨?_, fun h => ⟨h.sound_vertices, h.sound_edges, h.graph⟩⟩
  rintro ⟨hvertices, hedges, rfl⟩
  exact isFold_of_sound hvertices hedges

/-- A directory of tables is read whatever its layout. Any enumeration gives the same result,
and columns in another order give the same graph or a failure with the same code. A graph is
read exactly when there are files and all of them are sound. It is then the fold of the files
with the one stem and of those with the other, both in the order of their names. -/
theorem load_layout (options : OpenCypherOptions) (d : Disk) (dir : String) (names : List String)
    (hnames : d.names dir = .ok names) :
    (∀ listing listing' : List String, listing.Perm names → listing'.Perm names →
      readEnumerated options d dir listing listing' = load options d (propertyScheme ++ dir)) ∧
    (∀ (e : Disk) (listing listing' : List String), Relaid options dir names d e →
      listing.Perm names → listing'.Perm names →
      readEnumerated options e dir listing listing' = load options e (propertyScheme ++ dir) ∧
      (load options e (propertyScheme ++ dir)).mapError Failure.code
        = (load options d (propertyScheme ++ dir)).mapError Failure.code) ∧
    (∀ g, load options d (propertyScheme ++ dir) = .ok g ↔
      (filesNamed d dir options.vertexStem names ≠ [] ∨
        filesNamed d dir options.edgeStem names ≠ []) ∧
      IsFold d (filesNamed d dir options.vertexStem names)
        (filesNamed d dir options.edgeStem names) g) ∧
    (∀ fault, load options d (propertyScheme ++ dir) = .error fault →
      fault.code = "backend_io") ∧
    names.Pairwise (· < ·) ∧
    ∀ stem, filesNamed d dir stem names
      = (names.filter fun name => startsWith name stem && d.isFile (Disk.join dir name)).map
          (Disk.join dir) := by
  have henumerated : ∀ (e : Disk) (listing listing' : List String), e.names dir = .ok names →
      listing.Perm names → listing'.Perm names →
      readEnumerated options e dir listing listing' = load options e (propertyScheme ++ dir) := by
    intro e listing listing' he hperm hperm'
    rw [readEnumerated, filesAmong_eq he hperm, filesAmong_eq he hperm', load_eq_readDirectory,
      readDirectory_eq_readFiles he]
  obtain ⟨p, hopens⟩ := Disk.exists_opens_of_names hnames
  refine ⟨?_, ?_, ?_, ?_, hopens.pairwise_names hnames, ?_⟩
  · intro listing listing'
    exact henumerated d listing listing' hnames
  · intro e listing listing' hrelaid hperm hperm'
    refine ⟨henumerated e listing listing' hrelaid.listed hperm hperm', ?_⟩
    rw [load_eq_readDirectory, load_eq_readDirectory]
    exact hrelaid.mapError_readDirectory hnames
  · intro g
    rw [load_eq_readDirectory, readDirectory_eq_readFiles hnames]
    exact readFiles_eq_ok_iff_isFold
  · intro fault h
    rw [load_eq_readDirectory, readDirectory_eq_readFiles hnames] at h
    exact code_of_readFiles h
  · intro stem
    exact filesNamed_eq_map d dir stem names

/-- A directory with one table of vertices. -/
def vertexTable (text : String) : Disk where
  nodes := ⟨[("h", .directory), ("h/vertices.csv", .file (Text.bytesOf text))],
    List.pairwise_pair.2 (show "h" < "h/vertices.csv" by decide +kernel)⟩

theorem names_vertexTable (text : String) :
    (vertexTable text).names "h" = .ok ["vertices.csv"] := by
  have hself : Disk.nameIn? "h" "h" = none := by decide +kernel
  have hfile : Disk.nameIn? "h" "h/vertices.csv" = some "vertices.csv" := by
    have hafter : after? "h/" "h/vertices.csv" = some "vertices.csv" := by decide +kernel
    simp [Disk.nameIn?, hafter, String.contains_char_eq]
  have hkeys : (vertexTable text).nodes.keys = ["h", "h/vertices.csv"] := by rfl
  have hnames : (vertexTable text).names "h"
      = .ok ((vertexTable text).nodes.keys.filterMap (Disk.nameIn? "h")) := by rfl
  rw [hnames, hkeys, List.filterMap_cons_none hself, List.filterMap_cons_some hfile]
  rfl

/-- The id of a vertex and its size. -/
def idFirst : Disk := vertexTable "id,size\na,3\n"

/-- The size of a vertex and its id. -/
def sizeFirst : Disk := vertexTable "size,id\n3,a\n"

/-- A table with the id first is read as with the size first. -/
theorem load_layout_of_swapped_columns :
    ∃ g, load {} idFirst (propertyScheme ++ "h") = .ok g ∧
      load {} sizeFirst (propertyScheme ++ "h") = .ok g ∧
      g.ids = ["a"] ∧ ∀ v ∈ g.vertices, v.attributes.get? "size" = some (.int 3) := by
  have hfirst : table? idFirst (Disk.join "h" "vertices.csv")
      = some ⟨["id", "size"], [["a", "3"]], false⟩ := by
    decide +kernel
  have hsecond : table? sizeFirst (Disk.join "h" "vertices.csv")
      = some ⟨["size", "id"], [["3", "a"]], false⟩ := by
    decide +kernel
  have hrelaid : Relaid {} "h" ["vertices.csv"] idFirst sizeFirst := by
    refine ⟨names_vertexTable _, fun name hname _ => ?_, fun name hname _ => ?_⟩
    all_goals obtain rfl := List.mem_singleton.1 hname
    · decide +kernel
    · rw [hfirst, hsecond]
      exact .reordered ⟨["id", "size"], [["a", "3"]], false⟩ [1, 0] (by decide) (by decide)
  obtain ⟨-, hcolumns, hread, -⟩ := load_layout {} idFirst "h" ["vertices.csv"]
    (names_vertexTable _)
  have hvertices : filesNamed idFirst "h" "vert" ["vertices.csv"]
      = [Disk.join "h" "vertices.csv"] := by decide +kernel
  have hedges : filesNamed idFirst "h" "edge" ["vertices.csv"] = [] := by decide +kernel
  have hsound : Sound .vertices (table? idFirst (Disk.join "h" "vertices.csv")) := by
    refine ⟨_, hfirst, ?_, rfl⟩
    unfold HasNeeded
    decide
  have hfold : IsFold idFirst [Disk.join "h" "vertices.csv"] [] _ :=
    isFold_of_sound (List.forall_mem_singleton.2 hsound) nofun
  have hload := (hread _).2 ⟨.inl (by rw [hvertices]; exact List.cons_ne_nil _ _),
    by rw [hvertices, hedges]; exact hfold⟩
  have hids : (ofMentions true (directoryMentions
      ([Disk.join "h" "vertices.csv"].filterMap (table? idFirst)) [])).ids = ["a"] := by
    rw [(ofMentions_represents _ _).ids_order]
    decide +kernel
  refine ⟨_, hload, ?_, hids, fun v hv => ?_⟩
  · obtain ⟨-, hcode⟩ := hcolumns _ _ _ hrelaid (List.Perm.refl _) (List.Perm.refl _)
    rw [hload] at hcode
    exact mapError_eq_ok_iff.1 hcode
  · have hid : v.id = "a" := by
      have hmem := List.mem_map_of_mem (f := Vertex.id) (Array.mem_toList_iff.2 hv)
      exact List.mem_singleton.1 (hids ▸ hmem)
    rw [hfold.vertex_values v hv, hid, List.filterMap_cons_some hfirst]
    decide +kernel

end MotifQuery.PropertyTables
