import MotifQuery.Proofs.Disk.Origin
import MotifQuery.Proofs.Host.Frame

/-!
# `MotifQuery.Proofs.Host.Entries`: ids in the tables of uploads

An upload id is in a table (`UploadHost.TableHas`) when an entry stands under it, or under another
key with the id inside. A table of records has the ids of its records and no others
(`exists_of_tableHas_tableText`), also where a record cannot be read back, and a directory whose
table lacks an id gives no record with it (`lacks_loadRecords`).

What the operations of a host add to the disk is told for all paths at once (`Disk.Adds`): files
that go by other names than a table, and the table of the host in its own directory, when it is
saved (`Tabling`). So a table elsewhere stays as it is, or goes.
-/

set_option autoImplicit false

namespace MotifQuery

open Text

/-- The place of the table in a directory. -/
def DiskPlace.table (p : DiskPlace) : DiskPlace :=
  p.child "metadata.json"

/-- The result of a row of readings has what each of them reads. -/
theorem exists_of_mem_mapM {α β : Type} {f : α → Option β} {xs : List α} {ys : List β}
    (h : xs.mapM f = some ys) {y : β} (hy : y ∈ ys) : ∃ x ∈ xs, f x = some y := by
  induction xs generalizing ys with
  | nil =>
    cases h
    cases hy
  | cons x rest ih =>
    rw [List.mapM_cons] at h
    obtain ⟨first, hfirst, h⟩ := Option.bind_eq_some_iff.1 h
    obtain ⟨others, hothers, h⟩ := Option.bind_eq_some_iff.1 h
    cases h
    rcases List.mem_cons.1 hy with rfl | hy
    · exact ⟨x, List.mem_cons_self, hfirst⟩
    · obtain ⟨other, hmem, hother⟩ := ih hothers hy
      exact ⟨other, List.mem_cons_of_mem _ hmem, hother⟩

/-- What is read back from a written record has the id of the record. -/
theorem UploadRecord.id_of_read?_document {u v : UploadRecord}
    (h : read? u.toJson.document = some v) : v.id = u.id := by
  have hfields : Json.Document.source.fields?
      ["temp_id", "filepath", "original_filename", "file_size", "created_at", "expires_at"]
      u.toJson.document
      = some [some (Json.str u.id).document, some (Json.str u.path).document,
          some (Json.str u.givenName).document, some (Json.nat u.size).document,
          some (Json.str u.createdAt.text).document, some (Json.str u.expiresAt.text).document] := by
    rw [toJson, Json.ofFields, Json.fields?_document_object]
    simp only [List.map_cons, List.map_nil, Dict.get?_ofList]
    rfl
  unfold read? at h
  dsimp only at h
  rw [hfields] at h
  simp only [Source.require, Option.bind_eq_bind, Option.bind_some, text?_document,
    Option.bind_eq_some_iff] at h
  obtain ⟨size, -, created, -, expires, -, hv⟩ := h
  cases hv
  rfl

namespace UploadHost

variable {h : UploadHost} {d e : Disk} {p q : DiskPlace} {now : Instant} {id name : String}
  {content : Bytes} {records : Dict UploadRecord}

/-! ### Entries -/

/-- The content of a table has an entry for the id. -/
def TableHas (content : Bytes) (id : String) : Prop :=
  ∃ text members, stringOf? content = some text ∧
    Json.Document.parse? text.toList = some (.object members) ∧
    ∃ m ∈ members, m.1 = id ∨ ∃ u, UploadRecord.read? m.2 = some u ∧ u.id = id

/-- The ids in a table are those of its records. -/
theorem exists_of_tableHas_tableText (h : TableHas (bytesOf (tableText records)) id) :
    ∃ key u, records.get? key = some u ∧ (key = id ∨ u.id = id) := by
  obtain ⟨text, members, htext, hmembers, m, hm, hid⟩ := h
  rw [stringOf?_bytesOf] at htext
  cases htext
  rw [tableText, Json.indented, String.toList_ofList, Json.Document.parse?_indented] at hmembers
  change some (Json.Document.object (Json.memberDocuments (records.map _).entries)) = _ at hmembers
  cases hmembers
  rw [Json.memberDocuments_eq_map, List.mem_map] at hm
  obtain ⟨entry, hentry, rfl⟩ := hm
  obtain ⟨⟨key, u⟩, hu, rfl⟩ := List.mem_map.1 hentry
  refine ⟨key, u, Dict.mem_entries_iff.1 hu, hid.imp_right ?_⟩
  rintro ⟨v, hv, rfl⟩
  exact (UploadRecord.id_of_read?_document hv).symm

end UploadHost

/-- A text that is read stands in a file. -/
theorem Disk.exists_file_of_readText {d : Disk} {path text : String}
    (h : (d.readText path).toOption = some text) :
    ∃ content, d.lookup path = .ok (.file content) ∧ stringOf? content = some text := by
  have hread : d.readText path = .ok text := by
    cases hread : d.readText path with
    | error fault => rw [hread] at h; cases h
    | ok found => rw [hread] at h; cases h; rfl
  obtain ⟨content, hcontent, hstring⟩ := bind_eq_ok_iff.1 hread
  obtain ⟨node, hnode, hfile⟩ := bind_eq_ok_iff.1 hcontent
  cases node with
  | directory => cases hfile
  | file found =>
    cases hfile
    refine ⟨content, hnode, ?_⟩
    split at hstring
    · next hsome =>
      cases hstring
      exact hsome
    · cases hstring

/-- The table in a directory has an entry for the id. -/
def Disk.HasEntry (d : Disk) (directory id : String) : Prop :=
  ∃ content, d.lookup (UploadHost.tablePath directory) = .ok (.file content) ∧
    UploadHost.TableHas content id

namespace UploadHost

variable {h : UploadHost} {d e : Disk} {p q : DiskPlace} {now : Instant} {id name : String}
  {content : Bytes} {records : Dict UploadRecord}

/-- What is read of a table stands in it as an entry. -/
theorem exists_of_readTable? {text key : String} {u : UploadRecord}
    (h : readTable? text = some records) (hu : records.get? key = some u) :
    ∃ members m, Json.Document.parse? text.toList = some (.object members) ∧ m ∈ members ∧
      m.1 = key ∧ UploadRecord.read? m.2 = some u := by
  obtain ⟨doc, hdoc, hrecords⟩ := Option.bind_eq_some_iff.1 h
  obtain ⟨members, hmembers, hentries⟩ := Option.bind_eq_some_iff.1 hrecords
  obtain ⟨entries, hread, rfl⟩ := Option.map_eq_some_iff.1 hentries
  obtain ⟨m, hm, hentry⟩ :=
    exists_of_mem_mapM hread (Dict.mem_of_mem_ofList (Dict.mem_entries_iff.2 hu))
  obtain ⟨v, hv, hentry⟩ := Option.map_eq_some_iff.1 hentry
  cases hentry
  have hdocument : doc = .object members := by
    cases doc <;> cases hmembers
    rfl
  exact ⟨members, m, hdocument ▸ hdoc, hm, rfl, hv⟩

/-- A directory whose table lacks an id gives no record with it. -/
theorem lacks_loadRecords {directory key : String} {u : UploadRecord}
    (hlacks : ¬ d.HasEntry directory id) (hu : (loadRecords d directory).get? key = some u) :
    key ≠ id ∧ u.id ≠ id := by
  rw [← not_or]
  intro hid
  unfold loadRecords at hu
  split at hu
  · next records hread =>
    obtain ⟨text, htext, htable⟩ := Option.bind_eq_some_iff.1 hread
    obtain ⟨content, hlookup, hstring⟩ := Disk.exists_file_of_readText htext
    rw [Dict.get?_filter] at hu
    obtain ⟨hu, -⟩ := Option.filter_eq_some_iff.1 hu
    obtain ⟨members, m, hdoc, hm, rfl, hv⟩ := exists_of_readTable? htable hu
    exact hlacks ⟨content, hlookup, text, members, hstring, hdoc, m, hm,
      hid.imp_right fun hid => ⟨u, hv, hid⟩⟩
  · cases hu

/-! ### What operations add -/

/-- The file goes by another name than a table, or it stands where the table of a directory
stands, with a content of the kind. -/
def Tabling (q : DiskPlace) (P : Bytes → Prop) (p : DiskPlace) (content : Bytes) : Prop :=
  lastName p.key = "metadata.json" → p.key = q.table.key ∧ P content

variable {P : Bytes → Prop}

/-- Under another name no table is written. -/
theorem adds_write_of_lastName {path : String} (hwrite : d.write path content = .ok e)
    (hname : lastName path ≠ "metadata.json") : Disk.Adds (Tabling q P) d e := by
  refine Disk.adds_write hwrite fun p r htarget hkey hp => absurd ?_ hname
  rw [← Disk.lastName_key htarget, ← hkey, hp]

theorem adds_guardTable {directory : String} (hguard : guardTable d directory = .ok e) :
    Disk.Adds (Tabling q P) d e := by
  unfold guardTable at hguard
  split at hguard
  · cases hguard
    exact .refl _ d
  · exact adds_write_of_lastName hguard (by rw [lastName_lockPath]; decide)

/-- Saving adds the table, unless it fails. -/
theorem adds_saveRecords (hopens : d.Opens h.directory q)
    (hP : (h.saveRecords d).1 = .ok () → P (bytesOf (tableText h.records))) :
    Disk.Adds (Tabling q P) d (h.saveRecords d).2 := by
  unfold saveRecords at hP ⊢
  split
  · exact .refl _ d
  next guarded hguard =>
  rw [hguard] at hP
  have hguarded : Disk.Adds (Tabling q P) d guarded := adds_guardTable hguard
  dsimp only at hP ⊢
  split
  · next saved hsave =>
    rw [hsave] at hP
    refine hguarded.trans (Disk.adds_write hsave fun p r htarget hkey _ => ⟨?_, hP rfl⟩)
    have hjoin := (hopens.mono hguarded.directories).target_join plainName_table
      (Disk.walk_of_target htarget).2.1
    rw [hkey]
    exact congrArg (fun t => t.place.key) (Except.ok.inj (htarget.symm.trans hjoin))
  · exact hguarded

theorem adds_removeQuietly (d : Disk) (path : String) :
    Disk.Adds Disk.Nothing d (removeQuietly d path) := by
  unfold removeQuietly
  cases hremove : d.remove path with
  | error fault => exact .refl _ d
  | ok e => exact Disk.adds_remove hremove

theorem adds_foldl_drop (ids : List String) (state : UploadHost × Disk) :
    Disk.Adds Disk.Nothing state.2 (ids.foldl drop state).2 := by
  induction ids generalizing state with
  | nil => exact .refl _ _
  | cons id ids ih =>
    refine Disk.Adds.trans ?_ (ih (drop state id))
    obtain ⟨h, d⟩ := state
    unfold drop
    dsimp only
    split
    · exact adds_removeQuietly d _
    · exact .refl _ d

/-- A purge adds the table of what is left. -/
theorem adds_purge (hopens : d.Opens h.directory q)
    (hP : P (bytesOf (tableText (h.purge now d).host.records))) :
    Disk.Adds (Tabling q P) d (h.purge now d).disk := by
  have hdropped := (adds_foldl_drop (h.expiredIds now) (h, d)).of_nothing (Tabling q P)
  rw [purge_eq] at hP ⊢
  dsimp only at hP ⊢
  split at hP
  · next hnone =>
    rw [if_pos hnone]
    exact hdropped
  · next hsome =>
    rw [if_neg hsome]
    refine hdropped.trans (adds_saveRecords ?_ fun _ => hP)
    rw [directory_foldl_drop]
    exact hopens.mono hdropped.directories

/-- A clean-up adds tables in the directory of the host only. -/
theorem adds_cleanup (hopens : d.Opens h.directory q) (now : Instant) (id : String) :
    Disk.Adds (Tabling q fun _ => True) d (h.cleanup now d id).disk := by
  rcases h.cleanup_cases now d id with ⟨-, hcleanup⟩ | ⟨u, -, hcleanup⟩
  · rw [hcleanup]
    exact adds_purge hopens trivial
  have hremoved := (adds_removeQuietly d u.path).of_nothing (Tabling q fun _ => True)
  have hopens' : (removeQuietly d u.path).Opens (h.without id).directory q :=
    hopens.mono hremoved.directories
  have hsaved := hremoved.trans (adds_saveRecords hopens' fun _ => trivial)
  rcases hcleanup with ⟨f, -, hcleanup⟩ | ⟨-, hcleanup⟩
  · rw [hcleanup]
    exact hsaved
  · rw [hcleanup]
    exact hsaved.trans (adds_purge (hopens.mono hsaved.directories) trivial)

/-- Storing adds the table with the new record, unless it fails. -/
theorem adds_store (hopens : d.Opens h.directory q)
    (hP : ∀ u, (h.store now id d content name).result = .ok u →
      P (bytesOf (tableText (h.store now id d content name).host.records))) :
    Disk.Adds (Tabling q P) d (h.store now id d content name).disk := by
  rcases h.store_cases now id d content name with ⟨fault, hstore⟩ | ⟨f, written, -, hwrite, hstore⟩
  · rw [hstore]
    exact .refl _ d
  have hwritten : Disk.Adds (Tabling q P) d written := by
    refine adds_write_of_lastName hwrite fun hname => ?_
    rw [lastName_filePath] at hname
    exact append_suffix_not_mem_tableNames (lastName id) f (by rw [hname]; decide)
  rcases hstore with hstore | ⟨expiresAt, -, hstore⟩
  · rw [hstore]
    exact hwritten
  · rw [hstore] at hP ⊢
    rw [keep_disk]
    refine hwritten.trans (adds_saveRecords (hopens.mono hwritten.directories) fun hsaved => ?_)
    rw [keep_host] at hP
    exact hP _ (result_keep hsaved)

end UploadHost

/-! ### What providers add -/

open UploadHost

variable {P : Bytes → Prop} {q : DiskPlace}

/-- Loading a graph adds no table. -/
theorem Provider.adds_load (s : Surroundings) (d : Disk) (uri : String) (p : Provider) :
    Disk.Adds (Tabling q P) d (p.load s d uri).2 := by
  rcases p.load_cases s d uri with hsame | ⟨path, content, key, hwrite, hcached⟩
  · rw [hsame]
    exact .refl _ d
  · exact adds_write_of_lastName hwrite fun hname =>
      OwnName.uncached (.inl (by decide)) uri key (hcached.symm.trans hname)

end MotifQuery
