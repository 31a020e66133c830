import Mathlib.Data.List.Pairwise
import MotifQuery.Proofs.Graph.TableRows

/-!
# `MotifQuery.Proofs.Graph.TableColumns`: columns in any order

A cell fills one slot of its row, the id, an end or an attribute, and cells under columns of
different slots may be taken in either order (`PropertyTables.Row.take_comm`). So a table whose
columns stand in another order makes the same calls, as long as no two of them fill one slot
(`PropertyTables.tableMentions_reorder`). Where two do, the later cell overrides the earlier
one, within a row as from row to row (`PropertyTables.vertexValue_ofTables` and
`PropertyTables.edgeValue_ofTables`).
-/

set_option autoImplicit false

namespace MotifQuery

open HostGraph

/-! ### Lists in another order -/

section
variable {α β : Type}

/-- The entries at the positions of `order`. -/
def reorder (order : List Nat) (xs : List α) : List α :=
  order.filterMap (xs[·]?)

theorem filterMap_range_getElem? (xs : List α) :
    (List.range xs.length).filterMap (xs[·]?) = xs := by
  induction xs using List.reverseRecOn with
  | nil => rfl
  | append_singleton rest last ih =>
    have hrest : (List.range rest.length).filterMap ((rest ++ [last])[·]?) = rest := by
      refine (List.filterMap_congr fun n hn => ?_).trans ih
      exact List.getElem?_append_left (List.mem_range.1 hn)
    rw [List.length_append, List.length_singleton, List.range_succ, List.filterMap_append, hrest]
    simp

theorem reorder_perm {order : List Nat} {xs : List α}
    (h : order.Perm (List.range xs.length)) : (reorder order xs).Perm xs := by
  have hperm := h.filterMap (xs[·]?)
  rwa [filterMap_range_getElem?] at hperm

theorem map_reorder (f : α → β) (order : List Nat) (xs : List α) :
    (reorder order xs).map f = reorder order (xs.map f) := by
  rw [reorder, reorder, List.map_filterMap]
  exact List.filterMap_congr fun n _ => List.getElem?_map.symm

/-- Lists of one length that are put in the same order stay side by side. -/
theorem zip_reorder (order : List Nat) {xs : List α} {ys : List β}
    (h : xs.length = ys.length) :
    (reorder order xs).zip (reorder order ys) = reorder order (xs.zip ys) := by
  induction order with
  | nil => rfl
  | cons n rest ih =>
    simp only [reorder, List.filterMap_cons] at ih ⊢
    by_cases hn : n < xs.length
    · have hzip : n < (xs.zip ys).length := by
        rw [List.length_zip, ← h, Nat.min_self]
        exact hn
      rw [List.getElem?_eq_getElem hn, List.getElem?_eq_getElem (h ▸ hn),
        List.getElem?_eq_getElem hzip, List.zip_cons_cons, ih, List.getElem_zip]
    · have hn := Nat.not_lt.1 hn
      have hzip : (xs.zip ys).length ≤ n := by
        rw [List.length_zip]
        exact Nat.le_trans (Nat.min_le_left _ _) hn
      rw [List.getElem?_eq_none hn, List.getElem?_eq_none (h ▸ hn), List.getElem?_eq_none hzip]
      exact ih

end

/-! ### Rows have the width of the header -/

namespace Csv

theorem length_of_mem_readRows {width : Nat} {records : List (List Bytes)} {row : List String}
    (h : row ∈ (readRows width records).1) : row.length = width := by
  induction records with
  | nil => cases h
  | cons record rest ih =>
    rw [readRows] at h
    split at h
    · split at h
      · next hlength =>
        rcases List.mem_cons.1 h with rfl | h
        · exact hlength
        · exact ih h
      · cases h
    · cases h

theorem length_of_readTable? {bs : Bytes} {t : Table} (h : readTable? bs = some t)
    {row : List String} (hrow : row ∈ t.rows) : row.length = t.header.length := by
  unfold readTable? at h
  split at h
  · cases h
    cases hrow
  · split at h
    · cases h
    · cases h
      exact length_of_mem_readRows hrow

/-- The table with its columns in another order. -/
def Table.reorder (order : List Nat) (t : Table) : Table :=
  { t with
    header := MotifQuery.reorder order t.header
    rows := t.rows.map (MotifQuery.reorder order) }

end Csv

namespace PropertyTables

/-! ### What a column fills -/

/-- A part of a row that a cell fills. -/
inductive Slot where
  | id
  | source
  | target
  | attribute (name : String)
deriving DecidableEq

/-- The slot that the cells of a column fill. -/
def Column.slot? : Column → Option Slot
  | .id => some .id
  | .source => some .source
  | .target => some .target
  | .labels => some (.attribute labelsAttribute)
  | .property name _ => some (.attribute name)
  | .ignored => none

/-- No two of the columns fill the same slot. -/
def DistinctSlots (columns : List Column) : Prop :=
  (columns.filterMap Column.slot?).Nodup

instance (columns : List Column) : Decidable (DistinctSlots columns) :=
  inferInstanceAs (Decidable (List.Nodup _))

/-- The columns do not fill the same slot. -/
def Column.Apart (a b : Column) : Prop :=
  ∀ s, a.slot? = some s → b.slot? ≠ some s

theorem Column.Apart.symm {a b : Column} (h : a.Apart b) : b.Apart a :=
  fun s hb ha => h s ha hb

theorem DistinctSlots.pairwise {columns : List Column} (h : DistinctSlots columns) :
    columns.Pairwise Column.Apart := by
  refine (List.pairwise_filterMap.1 h).imp fun hne s ha hb => ?_
  exact hne s ha s hb rfl

/-- Cells under columns of different slots may be taken in either order. -/
theorem Row.take_comm {a b : Column} (h : a.Apart b) (row : Row) (x y : String) :
    (row.take a x).take b y = (row.take b y).take a x := by
  have hattribute : ∀ {name other : String}, a.slot? = some (.attribute name) →
      b.slot? = some (.attribute other) → name ≠ other := by
    rintro name _ ha hb rfl
    exact h _ ha hb
  unfold Row.take
  by_cases hx : x = ""
  · simp only [if_pos hx]
  by_cases hy : y = ""
  · simp only [if_pos hy]
  simp only [if_neg hx, if_neg hy]
  -- two columns that fill one part of the row are not apart, unless it is the attributes
  cases a with
  | ignored => rfl
  | id => cases b <;> first | rfl | exact absurd rfl (h .id rfl)
  | source => cases b <;> first | rfl | exact absurd rfl (h .source rfl)
  | target => cases b <;> first | rfl | exact absurd rfl (h .target rfl)
  | labels =>
    cases b with
    | labels => exact absurd rfl (h _ rfl)
    | property name type => simp only [Dict.insert_comm _ (hattribute rfl rfl)]
    | _ => rfl
  | property name type =>
    cases b with
    | labels => simp only [Dict.insert_comm _ (hattribute rfl rfl)]
    | property other type' => simp only [Dict.insert_comm _ (hattribute rfl rfl)]
    | _ => rfl

/-- Cells under columns of different slots make the same row in any order. -/
theorem foldl_take_perm {cells others : List (Column × String)} (hperm : cells.Perm others)
    (h : DistinctSlots (cells.map Prod.fst)) (row : Row) :
    cells.foldl (fun row cell => row.take cell.1 cell.2) row
      = others.foldl (fun row cell => row.take cell.1 cell.2) row := by
  -- a cell is taken as often before itself as behind itself
  have hcells : cells.Pairwise fun p q => p = q ∨ p.1.Apart q.1 :=
    (List.pairwise_map.1 h.pairwise).imp .inr
  have hsymm : Std.Symm fun p q : Column × String => p = q ∨ p.1.Apart q.1 :=
    ⟨fun _ _ hpq => hpq.imp Eq.symm Column.Apart.symm⟩
  refine hperm.foldl_eq' (fun p hp q hq row => ?_) row
  by_cases heq : p = q
  · rw [heq]
  · rcases hcells.forall hp hq heq with heq | hapart
    · rw [heq]
    · exact Row.take_comm hapart row p.2 q.2

theorem ofRecord_reorder {columns : List Column} {record : List String} {order : List Nat}
    (hlength : record.length = columns.length) (horder : order.Perm (List.range columns.length))
    (h : DistinctSlots columns) :
    Row.ofRecord (reorder order columns) (reorder order record)
      = Row.ofRecord columns record := by
  have hcells : (columns.zip record).length = columns.length := by
    rw [List.length_zip, hlength, Nat.min_self]
  have hcolumns : (columns.zip record).map Prod.fst = columns :=
    List.map_fst_zip (Nat.le_of_eq hlength.symm)
  rw [Row.ofRecord, Row.ofRecord, zip_reorder order hlength.symm]
  exact (foldl_take_perm (reorder_perm (hcells ▸ horder)).symm (hcolumns.symm ▸ h) {}).symm

/-! ### Tables with their columns in another order -/

section
variable {t : Csv.Table} {order : List Nat}

/-- The columns of a table. -/
def columnsOf (t : Csv.Table) : List Column :=
  t.header.map Column.ofHeader

theorem columnsOf_reorder (order : List Nat) (t : Csv.Table) :
    columnsOf (t.reorder order) = reorder order (columnsOf t) :=
  map_reorder _ order _

theorem columnsOf_reorder_perm (horder : order.Perm (List.range t.header.length)) :
    (columnsOf (t.reorder order)).Perm (columnsOf t) := by
  rw [columnsOf_reorder]
  refine reorder_perm ?_
  rwa [columnsOf, List.length_map]

/-- A table makes the same calls with its columns in another order. -/
theorem tableMentions_reorder (kind : TableKind)
    (hwidth : ∀ row ∈ t.rows, row.length = t.header.length)
    (horder : order.Perm (List.range t.header.length)) (h : DistinctSlots (columnsOf t)) :
    tableMentions kind (t.reorder order) = tableMentions kind t := by
  have hlength : (columnsOf t).length = t.header.length := List.length_map _
  show (t.rows.map (reorder order)).filterMap (recordMention? kind (columnsOf (t.reorder order)))
    = t.rows.filterMap (recordMention? kind (columnsOf t))
  rw [List.filterMap_map, columnsOf_reorder]
  refine List.filterMap_congr fun row hrow => ?_
  have hrow : row.length = (columnsOf t).length := (hwidth row hrow).trans hlength.symm
  exact congrArg kind.mention? (ofRecord_reorder hrow (hlength.symm ▸ horder) h)

theorem hasNeeded_reorder (kind : TableKind)
    (horder : order.Perm (List.range t.header.length)) :
    HasNeeded kind (t.reorder order) ↔ HasNeeded kind t :=
  forall₂_congr fun _ _ => (columnsOf_reorder_perm horder).mem_iff

end

/-! ### The cell that is written last -/

/-- What a cell writes, when it is not empty and stands under an attribute. -/
def Column.writes? (column : Column) (raw : String) : Option (String × Json) :=
  if raw = "" then none
  else
    match column with
    | .labels => some (labelsAttribute, .str raw)
    | .property name type => some (name, cellValue type raw)
    | _ => none

/-- What the cells of a record write, from the left. -/
def recordWrites (columns : List Column) (record : List String) : List (String × Json) :=
  (columns.zip record).filterMap fun cell => cell.1.writes? cell.2

theorem attributes_take (row : Row) (column : Column) (raw : String) :
    (row.take column raw).attributes
      = (column.writes? raw).elim row.attributes fun entry =>
          row.attributes.insert entry.1 entry.2 := by
  unfold Row.take Column.writes?
  split
  · rfl
  · cases column <;> rfl

theorem attributes_ofRecord (columns : List Column) (record : List String) :
    (Row.ofRecord columns record).attributes = Dict.ofList (recordWrites columns record) := by
  unfold Row.ofRecord recordWrites Dict.ofList
  induction columns.zip record using List.reverseRecOn with
  | nil => rfl
  | append_singleton rest cell ih =>
    rw [List.foldl_concat, attributes_take, ih, List.filterMap_append, List.foldl_append]
    cases hwrites : cell.1.writes? cell.2 <;> simp [hwrites]

/-- The records of tables in order, each with the columns of its table. -/
def recordsOf (tables : List Csv.Table) : List (List Column × List String) :=
  tables.flatMap fun t => t.rows.map fun record => (columnsOf t, record)

/-- What the records that belong to `owner` write, in order. -/
def writesOf {α : Type} [DecidableEq α] (owner? : List Column → List String → Option α)
    (owner : α) (tables : List Csv.Table) : List (String × Json) :=
  (recordsOf tables).flatMap fun record =>
    if owner? record.1 record.2 = some owner then recordWrites record.1 record.2 else []

theorem flatMap_tableMentions (kind : TableKind) (tables : List Csv.Table) :
    tables.flatMap (tableMentions kind)
      = (recordsOf tables).filterMap fun record => recordMention? kind record.1 record.2 := by
  rw [recordsOf, List.filterMap_flatMap]
  refine List.flatMap_congr fun t _ => ?_
  rw [List.filterMap_map]
  rfl

theorem lookupEntry_append {α : Type} (key : String) (xs ys : List (String × α)) :
    lookupEntry key (xs ++ ys) = (lookupEntry key xs).or (lookupEntry key ys) := by
  rw [← lookup_eq_lookupEntry, ← lookup_eq_lookupEntry, ← lookup_eq_lookupEntry,
    List.lookup_append]

theorem lastWritten_append (value? : Mention → Option Json) (ms others : List Mention) :
    lastWritten value? (ms ++ others) = (lastWritten value? others).or (lastWritten value? ms) := by
  rw [lastWritten, List.reverse_append, List.findSome?_append]
  rfl

/-- What the calls of tables write last is what the cells of the owner write last, when the
call of a record of the owner, and no other, writes its attributes. -/
theorem lastWritten_tables {α : Type} [DecidableEq α]
    {owner? : List Column → List String → Option α} {owner : α} {kind : TableKind}
    {value? : Mention → Option Json} {name : String}
    (h : ∀ columns record, (recordMention? kind columns record).bind value?
      = if owner? columns record = some owner then
          (Row.ofRecord columns record).attributes.get? name else none)
    (tables : List Csv.Table) :
    lastWritten value? (tables.flatMap (tableMentions kind))
      = lookupEntry name (writesOf owner? owner tables).reverse := by
  rw [flatMap_tableMentions, writesOf]
  -- what the last record writes goes before what the others write
  induction recordsOf tables using List.reverseRecOn with
  | nil => rfl
  | append_singleton rest record ih =>
    have hrecord : lastWritten value? (recordMention? kind record.1 record.2).toList
        = lookupEntry name (if owner? record.1 record.2 = some owner then
            recordWrites record.1 record.2 else []).reverse := by
      have hcall : lastWritten value? (recordMention? kind record.1 record.2).toList
          = (recordMention? kind record.1 record.2).bind value? := by
        cases recordMention? kind record.1 record.2 with
        | none => rfl
        | some m => exact (lastWritten_concat value? [] m).trans Option.or_none
      rw [hcall, h]
      split
      · rw [attributes_ofRecord, Dict.get?_ofList]
      · rfl
    rw [List.filterMap_append, List.flatMap_append, List.reverse_append, lookupEntry_append,
      lastWritten_append, ih, List.flatMap_singleton, ← hrecord]
    cases hm : recordMention? kind record.1 record.2 <;> simp [hm]

/-- The value of a vertex attribute is the one of the last cell that writes it. -/
theorem vertexValue_ofTables (vertices edges : List Csv.Table) (id name : String) :
    lastWritten (Mention.vertexValue? id name) (directoryMentions vertices edges)
      = lookupEntry name (writesOf (lastCell? .id) id vertices).reverse := by
  -- a call of an edge mentions its ends without attributes
  have hedges : lastWritten (Mention.vertexValue? id name)
      (edges.flatMap (tableMentions .edges)) = none := by
    refine lastWritten_eq_none fun m hm => ?_
    obtain ⟨t, -, ht⟩ := List.mem_flatMap.1 hm
    obtain ⟨record, -, hrecord⟩ := List.mem_filterMap.1 ht
    obtain ⟨source, -, hrecord⟩ := Option.bind_eq_some_iff.1 hrecord
    obtain ⟨target, -, rfl⟩ := Option.map_eq_some_iff.1 hrecord
    rfl
  rw [directoryMentions, lastWritten_append, hedges, Option.none_or]
  refine lastWritten_tables (fun columns record => ?_) vertices
  rw [recordMention?, TableKind.mention?, id_ofRecord]
  cases lastCell? .id columns record with
  | none => rfl
  | some other => simp [Mention.vertexValue?]

/-- The value of an edge attribute is the one of the last cell that writes it. -/
theorem edgeValue_ofTables (vertices edges : List Csv.Table) (ends : String × String)
    (name : String) :
    lastWritten (Mention.edgeValue? true ends name) (directoryMentions vertices edges)
      = lookupEntry name (writesOf recordEnds? ends edges).reverse := by
  have hvertices : lastWritten (Mention.edgeValue? true ends name)
      (vertices.flatMap (tableMentions .vertices)) = none := by
    refine lastWritten_eq_none fun m hm => ?_
    obtain ⟨t, -, ht⟩ := List.mem_flatMap.1 hm
    obtain ⟨record, -, hrecord⟩ := List.mem_filterMap.1 ht
    obtain ⟨id, -, rfl⟩ := Option.map_eq_some_iff.1 hrecord
    rfl
  rw [directoryMentions, lastWritten_append, hvertices, Option.or_none]
  refine lastWritten_tables (fun columns record => ?_) edges
  simp only [recordMention?, TableKind.mention?, recordEnds?, source_ofRecord, target_ofRecord]
  rcases Option.eq_none_or_eq_some (lastCell? .source columns record) with h | ⟨source, h⟩
  · simp [h]
  rcases Option.eq_none_or_eq_some (lastCell? .target columns record) with h' | ⟨target, h'⟩
  · simp [h, h']
  · simp [h, h', Mention.edgeValue?, SameEnds, eq_comm]

end PropertyTables

end MotifQuery
