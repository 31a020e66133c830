import MotifQuery.Host.Uploads
import MotifQuery.Proofs.Disk.GraphFile

/-!
# `MotifQuery.Proofs.Host.Uploads`: what an upload host does

Each operation of an upload host is summed up once. Purging takes the records of the expired
ids and nothing else (`get?_purge`), storing adds one record under a fresh id (`store_cases`),
and cleaning up takes one record and then purges (`cleanup_cases`). An operation that succeeds
and changes the records leaves their table on the disk (`Tabled`). Files of other names stay
through all of them.
-/

set_option autoImplicit false

namespace MotifQuery

open Text

theorem UploadRecord.isExpiredAt_eq_false {u : UploadRecord} {now : Instant}
    (h : now < u.expiresAt) : u.isExpiredAt now = false :=
  decide_eq_false (Int.not_le.2 h)

theorem UploadRecord.isExpiredAt_mono {u : UploadRecord} {t now : Instant} (hnow : t ≤ now)
    (hexpired : u.isExpiredAt t = true) : u.isExpiredAt now = true :=
  decide_eq_true (Int.le_trans (of_decide_eq_true hexpired) hnow)

theorem Disk.keepsFile_removeQuietly {d : Disk} {path other : String}
    (hname : lastName other ≠ lastName path) :
    KeepsFile path d (UploadHost.removeQuietly d other) := by
  unfold UploadHost.removeQuietly
  cases hremove : d.remove other with
  | error fault => exact .refl path d
  | ok e => exact keepsFile_remove hremove hname

namespace UploadHost

variable {h : UploadHost} {d : Disk} {now : Instant} {id path : String}

/-! ### The table -/

/-- The disk has the table of the records of the host. -/
def Tabled (h : UploadHost) (d : Disk) : Prop :=
  d.lookup (tablePath h.directory)
    = .ok (.file (bytesOf (Json.object (h.records.map UploadRecord.toJson)).indented))

/-- The names of the files that a table is kept with. -/
def tableNames : List String := ["metadata.json", ".metadata.lock"]

@[simp]
theorem lastName_tablePath (directory : String) :
    lastName (tablePath directory) = "metadata.json" := by
  rw [tablePath, Disk.lastName_join]
  exact lastName_of_not_mem (by decide)

@[simp]
theorem lastName_lockPath (directory : String) :
    lastName (lockPath directory) = ".metadata.lock" := by
  rw [lockPath, Disk.lastName_join]
  exact lastName_of_not_mem (by decide)

/-- The file of an upload is none of those that the table is kept with. -/
theorem append_suffix_not_mem_tableNames (start : String) (f : GraphFormat) :
    start ++ f.suffix ∉ tableNames := by
  have hlast (name : String) (h : name.toList.getLast? ≠ f.suffix.toList.getLast?) :
      start ++ f.suffix ≠ name := by
    rintro rfl
    rw [String.toList_append, List.getLast?_append_of_ne_nil _ f.suffix_ne_nil] at h
    exact h rfl
  simp only [tableNames, List.mem_cons, List.not_mem_nil, or_false, not_or]
  exact ⟨hlast _ (by cases f <;> decide), hlast _ (by cases f <;> decide)⟩

theorem sameFile_guardTable {directory : String} {e : Disk}
    (h : guardTable d directory = .ok e) (hname : lastName path ≠ ".metadata.lock") :
    d.SameFile path e := by
  unfold guardTable at h
  split at h
  · cases h
    exact .refl path d
  · refine Disk.sameFile_write h ?_
    rw [lastName_lockPath]
    exact Ne.symm hname

/-- Saving touches the files of the table only. -/
theorem sameFile_saveRecords (h : UploadHost) (d : Disk) (hname : lastName path ∉ tableNames) :
    d.SameFile path (h.saveRecords d).2 := by
  simp only [tableNames, List.mem_cons, List.not_mem_nil, or_false, not_or] at hname
  unfold saveRecords
  split
  · exact .refl path d
  · next guarded hguard =>
    have hsame := sameFile_guardTable hguard hname.2
    dsimp only
    split
    · next saved hsave =>
      refine hsame.trans (Disk.sameFile_write hsave ?_)
      rw [lastName_tablePath]
      exact Ne.symm hname.1
    · exact hsame

theorem keepsFile_saveRecords (h : UploadHost) (d : Disk) (hname : lastName path ∉ tableNames) :
    d.KeepsFile path (h.saveRecords d).2 :=
  (sameFile_saveRecords h d hname).keepsFile

/-- A table that cannot be saved stays as it was. -/
theorem sameFile_table_of_saveRecords {f : Failure} (hsaved : (h.saveRecords d).1 = .error f) :
    d.SameFile (tablePath h.directory) (h.saveRecords d).2 := by
  unfold saveRecords at hsaved ⊢
  split at hsaved
  · exact .refl _ d
  · next guarded hguard =>
    dsimp only at hsaved ⊢
    split at hsaved
    · cases hsaved
    · exact sameFile_guardTable hguard (by rw [lastName_tablePath]; decide)

theorem tabled_saveRecords {d : Disk} (hsaved : (h.saveRecords d).1 = .ok ()) :
    h.Tabled (h.saveRecords d).2 := by
  unfold saveRecords at hsaved ⊢
  split at hsaved
  · cases hsaved
  · next guarded hguard =>
    dsimp only at hsaved ⊢
    split at hsaved
    · next saved hsave => exact Disk.lookup_write hsave
    · cases hsaved

/-! ### Purging -/

/-- The ids of the records that are expired. -/
def expiredIds (h : UploadHost) (now : Instant) : List String :=
  (h.records.values.filter fun u => u.isExpiredAt now).map (·.id)

/-- Takes the record at an id, and its file. -/
def drop (state : UploadHost × Disk) (id : String) : UploadHost × Disk :=
  match state with
  | (h, d) =>
    match h.records.get? id with
    | some u => ({ h with records := h.records.erase id }, removeQuietly d u.path)
    | none => (h, d)

theorem purge_eq (h : UploadHost) (now : Instant) (d : Disk) :
    h.purge now d =
      let dropped := (h.expiredIds now).foldl drop (h, d)
      if (h.expiredIds now).isEmpty then ⟨.ok 0, dropped.1, dropped.2⟩
      else
        ⟨(dropped.1.saveRecords dropped.2).1.map fun _ => (h.expiredIds now).length, dropped.1,
          (dropped.1.saveRecords dropped.2).2⟩ :=
  rfl

@[simp]
theorem directory_foldl_drop (ids : List String) (state : UploadHost × Disk) :
    (ids.foldl drop state).1.directory = state.1.directory := by
  induction ids generalizing state with
  | nil => rfl
  | cons id ids ih =>
    rw [List.foldl_cons, ih, drop]
    split <;> rfl

theorem get?_drop (state : UploadHost × Disk) (id key : String) :
    (drop state id).1.records.get? key = if key = id then none else state.1.records.get? key := by
  obtain ⟨h, d⟩ := state
  unfold drop
  dsimp only
  split
  · exact h.records.get?_erase id key
  · next hnone =>
    split
    · next hkey => rw [hkey, hnone]
    · rfl

theorem get?_foldl_drop (ids : List String) (state : UploadHost × Disk) (key : String) :
    (ids.foldl drop state).1.records.get? key
      = if key ∈ ids then none else state.1.records.get? key := by
  induction ids generalizing state with
  | nil => simp
  | cons id ids ih =>
    rw [List.foldl_cons, ih, get?_drop]
    by_cases hkey : key = id <;> simp [hkey]

/-- Purging takes the records of the expired ids and no others. -/
theorem get?_purge (h : UploadHost) (now : Instant) (d : Disk) (key : String) :
    (h.purge now d).host.records.get? key
      = if key ∈ h.expiredIds now then none else h.records.get? key := by
  rw [← get?_foldl_drop (h.expiredIds now) (h, d), purge_eq]
  dsimp only
  split <;> rfl

@[simp]
theorem directory_purge (h : UploadHost) (now : Instant) (d : Disk) :
    (h.purge now d).host.directory = h.directory := by
  rw [purge_eq]
  dsimp only
  split <;> exact directory_foldl_drop _ _

/-- A purge finds nothing to take, or it leaves the table of what is left. -/
theorem purge_cases {n : Nat} (hok : (h.purge now d).result = .ok n) :
    ((h.purge now d).host = h ∧ (h.purge now d).disk = d)
      ∨ (h.purge now d).host.Tabled (h.purge now d).disk := by
  rw [purge_eq] at hok ⊢
  dsimp only at hok ⊢
  split at hok
  · next hnone =>
    have hids : h.expiredIds now = [] := List.isEmpty_iff.1 hnone
    rw [hids]
    exact .inl ⟨rfl, rfl⟩
  · next hsome =>
    rw [if_neg hsome]
    right
    apply tabled_saveRecords
    dsimp only at hok ⊢
    cases hsaved : (((h.expiredIds now).foldl drop (h, d)).1.saveRecords
        ((h.expiredIds now).foldl drop (h, d)).2).1 with
    | error f =>
      rw [hsaved] at hok
      cases hok
    | ok _ => rfl

theorem keepsFile_drop (state : UploadHost × Disk) (id : String)
    (hname : ∀ u, state.1.records.get? id = some u → lastName u.path ≠ lastName path) :
    state.2.KeepsFile path (drop state id).2 := by
  obtain ⟨h, d⟩ := state
  unfold drop
  dsimp only
  split
  · next u hu => exact Disk.keepsFile_removeQuietly (hname u hu)
  · exact .refl path d

theorem keepsFile_foldl_drop (ids : List String) (state : UploadHost × Disk)
    (hname : ∀ id ∈ ids, ∀ u, state.1.records.get? id = some u → lastName u.path ≠ lastName path) :
    state.2.KeepsFile path (ids.foldl drop state).2 := by
  induction ids generalizing state with
  | nil => exact .refl path _
  | cons id ids ih =>
    have hfirst := keepsFile_drop state id (hname id List.mem_cons_self)
    refine hfirst.trans (ih (drop state id) fun other hother u hu => ?_)
    rw [get?_drop] at hu
    split at hu
    · cases hu
    · exact hname other (List.mem_cons_of_mem _ hother) u hu

/-- A purge takes the files of the expired ids and no others. -/
theorem keepsFile_purge (h : UploadHost) (now : Instant) (d : Disk)
    (htable : lastName path ∉ tableNames)
    (hname : ∀ id ∈ h.expiredIds now, ∀ u, h.records.get? id = some u →
      lastName u.path ≠ lastName path) :
    d.KeepsFile path (h.purge now d).disk := by
  have hdropped := keepsFile_foldl_drop (h.expiredIds now) (h, d) hname
  rw [purge_eq]
  dsimp only
  split
  · exact hdropped
  · exact hdropped.trans (keepsFile_saveRecords _ _ htable)

/-! ### Storing -/

/-- The ending for the file of an upload is that of a format. -/
theorem exists_format_of_storedSuffix? {name suffix : String}
    (h : storedSuffix? name = some suffix) : ∃ f : GraphFormat, suffix = f.suffix := by
  unfold storedSuffix? at h
  dsimp only at h
  split at h
  · exact ⟨.packedGraphML, (Option.some.inj h).symm⟩
  · split at h
    · exact ⟨.graphML, (Option.some.inj h).symm⟩
    · next ext hext =>
      split at h
      · next hformat =>
        obtain ⟨f, hf⟩ := Option.isSome_iff_exists.1 hformat
        exact ⟨f, (Option.some.inj h).symm.trans (GraphFormat.eq_suffix_of_extension hext hf)⟩
      · cases h

/-- The path of the file of an upload. -/
def filePath (h : UploadHost) (id : String) (f : GraphFormat) : String :=
  Disk.join h.directory (id ++ f.suffix)

theorem lastName_filePath (h : UploadHost) (id : String) (f : GraphFormat) :
    lastName (h.filePath id f) = lastName id ++ f.suffix := by
  rw [filePath, Disk.lastName_join, lastName_append _ f.stroke_not_mem_suffix]

/-- The record of an upload. -/
def record (h : UploadHost) (now : Instant) (id : String) (content : Bytes) (name : String)
    (f : GraphFormat) (expiresAt : Instant) : UploadRecord :=
  { id, path := h.filePath id f, givenName := name, size := content.length, createdAt := now,
    expiresAt }

/-- What storing does with a content and a name of a format. -/
theorem store_eq {f : GraphFormat} {content : Bytes} {name : String} (hcontent : content ≠ [])
    (hsuffix : storedSuffix? name = some f.suffix) (h : UploadHost) (now : Instant) (id : String)
    (d : Disk) :
    h.store now id d content name = match d.write (h.filePath id f) content with
      | .error fault => ⟨.error (.refused fault.toFailure), h, d⟩
      | .ok written => match now.addDays? h.days with
        | none => ⟨.error .beyondCalendar, h, written⟩
        | some expiresAt => h.keep written (h.record now id content name f expiresAt) := by
  unfold store
  rw [if_neg (mt List.isEmpty_iff.1 hcontent), hsuffix]
  rfl

/-- The upload is refused before the records are touched: it has no content or no format, or its
file cannot be written. -/
def Refuses (h : UploadHost) (id : String) (d : Disk) (content : Bytes) (name : String) : Prop :=
  content = [] ∨ storedSuffix? name = none ∨
    ∃ (f : GraphFormat) (fault : DiskFault), storedSuffix? name = some f.suffix ∧
      d.write (h.filePath id f) content = .error fault

theorem store_of_refuses {content : Bytes} {name : String}
    (hrefuses : h.Refuses id d content name) (now : Instant) :
    ∃ fault, h.store now id d content name = ⟨.error (.refused fault), h, d⟩ := by
  by_cases hcontent : content = []
  · subst hcontent
    exact ⟨_, rfl⟩
  rcases hrefuses with hempty | hsuffix | ⟨f, fault, hsuffix, hwrite⟩
  · exact absurd hempty hcontent
  · unfold store
    rw [if_neg (mt List.isEmpty_iff.1 hcontent), hsuffix]
    exact ⟨_, rfl⟩
  · rw [store_eq hcontent hsuffix, hwrite]
    exact ⟨_, rfl⟩

/-- What storing does when the upload is not refused: it writes the file, and keeps its record
where the calendar has an expiry for it. -/
theorem store_of_not_refuses {content : Bytes} {name : String}
    (hrefuses : ¬ h.Refuses id d content name) (now : Instant) :
    ∃ (f : GraphFormat) (written : Disk), storedSuffix? name = some f.suffix ∧
      d.write (h.filePath id f) content = .ok written ∧
      h.store now id d content name = match now.addDays? h.days with
        | none => ⟨.error .beyondCalendar, h, written⟩
        | some expiresAt => h.keep written (h.record now id content name f expiresAt) := by
  obtain ⟨hcontent, hrefuses⟩ := not_or.1 hrefuses
  obtain ⟨hsuffix, hwrite⟩ := not_or.1 hrefuses
  obtain ⟨suffix, hsuffix⟩ := Option.ne_none_iff_exists'.1 hsuffix
  obtain ⟨f, rfl⟩ := exists_format_of_storedSuffix? hsuffix
  cases hwritten : d.write (h.filePath id f) content with
  | error fault => exact absurd ⟨f, fault, hsuffix, hwritten⟩ hwrite
  | ok written =>
    refine ⟨f, written, hsuffix, hwritten, ?_⟩
    rw [store_eq hcontent hsuffix, hwritten]

/-- What storing does: it refuses the upload, or it writes the file and then finds no expiry, or
it keeps the record of the file. -/
theorem store_cases (h : UploadHost) (now : Instant) (id : String) (d : Disk) (content : Bytes)
    (name : String) :
    (∃ fault, h.store now id d content name = ⟨.error (.refused fault), h, d⟩) ∨
    ∃ (f : GraphFormat) (written : Disk), storedSuffix? name = some f.suffix ∧
      d.write (h.filePath id f) content = .ok written ∧
      (h.store now id d content name = ⟨.error .beyondCalendar, h, written⟩ ∨
        ∃ expiresAt, now.addDays? h.days = some expiresAt ∧
          h.store now id d content name
            = h.keep written (h.record now id content name f expiresAt)) := by
  by_cases hrefuses : h.Refuses id d content name
  · exact .inl (store_of_refuses hrefuses now)
  · obtain ⟨f, written, hsuffix, hwrite, hstore⟩ := store_of_not_refuses hrefuses now
    refine .inr ⟨f, written, hsuffix, hwrite, ?_⟩
    cases hexpiry : now.addDays? h.days with
    | none =>
      rw [hexpiry] at hstore
      exact .inl hstore
    | some expiresAt =>
      rw [hexpiry] at hstore
      exact .inr ⟨expiresAt, rfl, hstore⟩

/-- The host with a further record. -/
def withRecord (h : UploadHost) (u : UploadRecord) : UploadHost :=
  { h with records := h.records.insert u.id u }

theorem get?_withRecord (h : UploadHost) (u : UploadRecord) (key : String) :
    (h.withRecord u).records.get? key = if key = u.id then some u else h.records.get? key :=
  h.records.get?_insert u.id key u

theorem keep_host (h : UploadHost) (d : Disk) (u : UploadRecord) :
    (h.keep d u).host = h.withRecord u := by
  unfold keep
  dsimp only
  split <;> rfl

theorem keep_disk (h : UploadHost) (d : Disk) (u : UploadRecord) :
    (h.keep d u).disk = ((h.withRecord u).saveRecords d).2 := by
  unfold keep
  dsimp only
  split <;> rfl

/-- A record that is kept is in the table. -/
theorem keep_ok {u v : UploadRecord} (hok : (h.keep d u).result = .ok v) :
    v = u ∧ (h.withRecord u).Tabled (h.keep d u).disk := by
  rw [keep_disk]
  unfold keep at hok
  dsimp only at hok
  split at hok
  · next hsaved =>
    cases hok
    exact ⟨rfl, tabled_saveRecords hsaved⟩
  · cases hok

theorem saved_of_keep {u v : UploadRecord} (hok : (h.keep d u).result = .ok v) :
    ((h.withRecord u).saveRecords d).1 = .ok () := by
  unfold keep at hok
  dsimp only at hok
  split at hok
  · next hsaved => exact hsaved
  · cases hok

/-- A record is kept where the table with it is saved. -/
theorem result_keep {u : UploadRecord} (hsaved : ((h.withRecord u).saveRecords d).1 = .ok ()) :
    (h.keep d u).result = .ok u := by
  unfold keep
  dsimp only
  rw [withRecord] at hsaved
  rw [hsaved]

/-- A record is not kept where the table with it cannot be saved, though the host has it. -/
theorem result_keep_eq_error_iff {u : UploadRecord} {fault : UploadFault} :
    (h.keep d u).result = .error fault ↔
      ∃ f, fault = .refused f ∧ ((h.withRecord u).saveRecords d).1 = .error f := by
  unfold keep withRecord
  dsimp only
  split
  · next hsaved => simp [hsaved]
  · next f hsaved =>
    simp only [hsaved, Except.error.injEq]
    exact ⟨fun hfault => ⟨f, hfault.symm, rfl⟩, fun ⟨g, hfault, hg⟩ => hg ▸ hfault.symm⟩

/-- An upload that is stored has its file and its record, and the table is on the disk. -/
theorem store_ok {content : Bytes} {name : String} {u : UploadRecord}
    (hok : (h.store now id d content name).result = .ok u) :
    ∃ (f : GraphFormat) (written : Disk) (expiresAt : Instant),
      storedSuffix? name = some f.suffix ∧ d.write (h.filePath id f) content = .ok written ∧
      now.addDays? h.days = some expiresAt ∧ u = h.record now id content name f expiresAt ∧
      (h.store now id d content name).host = h.withRecord u ∧
      (h.store now id d content name).disk = ((h.withRecord u).saveRecords written).2 ∧
      (h.withRecord u).Tabled (h.store now id d content name).disk := by
  rcases h.store_cases now id d content name with
    ⟨fault, hstore⟩ | ⟨f, written, hsuffix, hwrite, hstore | ⟨expiresAt, hexpiry, hstore⟩⟩
  · rw [hstore] at hok
    cases hok
  · rw [hstore] at hok
    cases hok
  · rw [hstore] at hok ⊢
    obtain ⟨rfl, htable⟩ := keep_ok hok
    exact ⟨f, written, expiresAt, hsuffix, hwrite, hexpiry, rfl, keep_host h written _,
      keep_disk h written _, htable⟩

theorem id_of_store {content : Bytes} {name : String} {u : UploadRecord}
    (hok : (h.store now id d content name).result = .ok u) : u.id = id := by
  obtain ⟨f, written, expiresAt, -, -, -, rfl, -⟩ := store_ok hok
  rfl

/-! ### Cleaning up -/

/-- The host without a record. -/
def without (h : UploadHost) (id : String) : UploadHost :=
  { h with records := h.records.erase id }

/-- What cleaning up does: it purges where there is no upload with the id; otherwise it takes
the upload, saves the table, and purges if that succeeded. -/
theorem cleanup_cases (h : UploadHost) (now : Instant) (d : Disk) (id : String) :
    (h.records.get? id = none ∧ h.cleanup now d id
        = { h.purge now d with result := (h.purge now d).result.map fun _ => false }) ∨
    ∃ u, h.records.get? id = some u ∧
      let saving := (h.without id).saveRecords (removeQuietly d u.path)
      ((∃ f, saving.1 = .error f ∧ h.cleanup now d id = ⟨.error f, h.without id, saving.2⟩) ∨
        (saving.1 = .ok () ∧ h.cleanup now d id
          = { (h.without id).purge now saving.2 with
              result := ((h.without id).purge now saving.2).result.map fun _ => true })) := by
  unfold cleanup
  split
  · next hnone => exact .inl ⟨hnone, rfl⟩
  · next u hu =>
    refine .inr ⟨u, hu, ?_⟩
    dsimp only
    split
    · next f hsaved => exact .inl ⟨f, hsaved, rfl⟩
    · next hsaved => exact .inr ⟨hsaved, rfl⟩

@[simp]
theorem directory_cleanup (h : UploadHost) (now : Instant) (d : Disk) (id : String) :
    (h.cleanup now d id).host.directory = h.directory := by
  rcases h.cleanup_cases now d id with
    ⟨-, hcleanup⟩ | ⟨v, -, ⟨f, -, hcleanup⟩ | ⟨-, hcleanup⟩⟩ <;> rw [hcleanup]
  · exact directory_purge h now d
  · rfl
  · exact directory_purge _ now _

/-- A clean-up that succeeds finds nothing to take, or it leaves the table of what is left. -/
theorem cleanup_ok {found : Bool} (hok : (h.cleanup now d id).result = .ok found) :
    ((h.cleanup now d id).host = h ∧ (h.cleanup now d id).disk = d)
      ∨ (h.cleanup now d id).host.Tabled (h.cleanup now d id).disk := by
  rcases h.cleanup_cases now d id with
    ⟨-, hcleanup⟩ | ⟨v, -, ⟨f, -, hcleanup⟩ | ⟨hsaved, hcleanup⟩⟩
  · rw [hcleanup] at hok ⊢
    obtain ⟨n, hn, -⟩ := map_eq_ok_iff.1 hok
    exact purge_cases hn
  · rw [hcleanup] at hok
    cases hok
  · rw [hcleanup] at hok ⊢
    obtain ⟨n, hn, -⟩ := map_eq_ok_iff.1 hok
    rcases purge_cases hn with ⟨hhost, hdisk⟩ | htable
    · right
      dsimp only
      rw [hhost, hdisk]
      exact tabled_saveRecords hsaved
    · exact .inr htable

/-! ### Listing -/

/-- Uploads are listed by the time of their creation, and by their ids where the times are
equal. -/
theorem listedBefore_iff {u v : UploadRecord} :
    u.listedBefore v = true
      ↔ u.createdAt < v.createdAt ∨ u.createdAt = v.createdAt ∧ u.id ≤ v.id := by
  simp [UploadRecord.listedBefore]

theorem pairwise_list (h : UploadHost) (now : Instant) :
    (h.list now).Pairwise fun u v => u.listedBefore v = true := by
  refine List.pairwise_mergeSort (fun u v w huv hvw => ?_) (fun u v => ?_) _
  · rw [listedBefore_iff] at huv hvw ⊢
    rcases huv with huv | ⟨huv, hid⟩ <;> rcases hvw with hvw | ⟨hvw, hid'⟩
    · exact .inl (Int.lt_trans huv hvw)
    · exact .inl (hvw ▸ huv)
    · exact .inl (huv ▸ hvw)
    · exact .inr ⟨huv.trans hvw, String.le_trans hid hid'⟩
  · rw [Bool.or_eq_true, listedBefore_iff, listedBefore_iff]
    rcases Int.lt_trichotomy u.createdAt v.createdAt with hlt | heq | hgt
    · exact .inl (.inl hlt)
    · exact (String.le_total u.id v.id).imp (fun hid => .inr ⟨heq, hid⟩)
        (fun hid => .inr ⟨heq.symm, hid⟩)
    · exact .inr (.inl hgt)

/-- The living uploads are listed. -/
theorem mem_list_iff {u : UploadRecord} :
    u ∈ h.list now ↔ u ∈ h.records.values ∧ u.isExpiredAt now = false := by
  rw [list, List.mem_mergeSort, List.mem_filter, Bool.not_eq_true']

end UploadHost

end MotifQuery
