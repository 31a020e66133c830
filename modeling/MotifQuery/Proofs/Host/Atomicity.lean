import MotifQuery.Proofs.Host.Restart

/-!
# `MotifQuery.Proofs.Host.Atomicity`: calls that fail half-way

Storing an upload touches three things one after the other: the file of the upload, the records
in memory and their table on the disk. Cleaning one up touches them too. A call that fails has
left all three alone (`UploadStep.Leaves`) exactly when it failed before the records
(`UploadHost.leaves_iff_of_error`): an upload may be refused, or its file may not be written.

Where it is the table that cannot be saved, nothing is taken back. The upload that was not stored
has its file and its record, and is listed and accepted until it expires (`HalfStored`); the
upload that was not cleaned up is gone from the records.
-/

set_option autoImplicit false

namespace MotifQuery

open UploadHost

/-- The records, their table and the files of uploads are as they were. -/
structure UploadStep.Leaves {α : Type} (step : UploadStep α) (h : UploadHost) (d : Disk) :
    Prop where
  records : step.host.records = h.records
  table : step.disk.lookup (tablePath h.directory) = d.lookup (tablePath h.directory)
  files : ∀ name ∉ tableNames, step.disk.lookup (Disk.join h.directory name)
    = d.lookup (Disk.join h.directory name)

namespace UploadHost

variable {h : UploadHost} {d : Disk} {now : Instant} {id name : String} {content : Bytes}
  {u : UploadRecord} {fault : Failure}

/-! ### Nothing to purge -/

theorem expiredIds_eq_nil_iff :
    h.expiredIds now = [] ↔ ∀ entry ∈ h.records.entries, entry.2.isExpiredAt now = false := by
  rw [expiredIds, List.map_eq_nil_iff, List.filter_eq_nil_iff, Dict.values, List.forall_mem_map]
  simp only [Bool.not_eq_true]

/-- Where nothing has expired a purge does nothing. -/
theorem purge_of_expiredIds_eq_nil (hlive : h.expiredIds now = []) (d : Disk) :
    h.purge now d = ⟨.ok 0, h, d⟩ := by
  rw [purge_eq, hlive]
  rfl

/-- Where nothing has expired, a clean-up that fails has found its upload and taken it, and could
not save the table. -/
theorem cleanup_error (hlive : h.expiredIds now = [])
    (herror : (h.cleanup now d id).result = .error fault) :
    ∃ u, h.records.get? id = some u ∧
      ((h.without id).saveRecords (removeQuietly d u.path)).1 = .error fault ∧
      (h.cleanup now d id).host = h.without id := by
  rcases h.cleanup_cases now d id with
    ⟨-, hcleanup⟩ | ⟨u, hu, ⟨f, hsaved, hcleanup⟩ | ⟨-, hcleanup⟩⟩
  · rw [hcleanup, purge_of_expiredIds_eq_nil hlive] at herror
    cases herror
  · rw [hcleanup] at herror ⊢
    cases herror
    exact ⟨u, hu, hsaved, rfl⟩
  · have hlive' : (h.without id).expiredIds now = [] :=
      expiredIds_eq_nil_iff.2 fun entry hentry =>
        expiredIds_eq_nil_iff.1 hlive entry (within_without h id entry hentry)
    rw [hcleanup, purge_of_expiredIds_eq_nil hlive'] at herror
    cases herror

/-! ### Uploads that are stored by half -/

/-- Storing failed, but the upload is there: its file is written, and the host has its record,
lists it and accepts it. The table on the disk does not know of it. -/
structure HalfStored (h : UploadHost) (d : Disk) (content : Bytes) (u : UploadRecord)
    (step : UploadStep (Except UploadFault UploadRecord)) : Prop where
  host : step.host = h.withRecord u
  file : step.disk.lookup u.path = .ok (.file content)
  table : d.SameFile (tablePath h.directory) step.disk
  listed : ∀ t < u.expiresAt, u ∈ step.host.list t
  accepted : ∀ t < u.expiresAt, step.host.accepts t u.uri = true

/-- The file of an upload has another name than those that a table is kept with. -/
theorem lastName_filePath_not_mem (h : UploadHost) (id : String) (f : GraphFormat) :
    lastName (h.filePath id f) ∉ tableNames := by
  rw [lastName_filePath]
  exact append_suffix_not_mem_tableNames (lastName id) f

/-- An upload whose record is made is there, also where its table is not saved. -/
theorem halfStored_keep {f : GraphFormat} {written : Disk} {expiresAt : Instant}
    (hwrite : d.write (h.filePath id f) content = .ok written)
    (hsaved : ((h.withRecord (h.record now id content name f expiresAt)).saveRecords written).1
      = .error fault) :
    HalfStored h d content (h.record now id content name f expiresAt)
      (h.keep written (h.record now id content name f expiresAt)) := by
  set u := h.record now id content name f expiresAt with hu
  have hpath : lastName u.path ∉ tableNames := lastName_filePath_not_mem h id f
  have hget : (h.withRecord u).records.get? id = some u := by
    rw [get?_withRecord]
    exact if_pos rfl
  -- the host keeps the record in memory, whatever became of the table
  refine ⟨keep_host h written u, ?_, ?_, fun t ht => ?_, fun t ht => ?_⟩
  · rw [keep_disk]
    exact (sameFile_saveRecords (h.withRecord u) written hpath).keepsFile _
      (Disk.lookup_write hwrite)
  · rw [keep_disk]
    refine (Disk.sameFile_write hwrite fun hname => ?_).trans (sameFile_table_of_saveRecords hsaved)
    rw [lastName_tablePath] at hname
    exact lastName_filePath_not_mem h id f (hname ▸ by decide)
  · rw [keep_host, mem_list_iff]
    exact ⟨List.mem_map.2 ⟨(id, u), Dict.mem_entries_iff.2 hget, rfl⟩,
      UploadRecord.isExpiredAt_eq_false ht⟩
  · have hlive : (h.withRecord u).live? t id = some u := by
      rw [live?, hget]
      simp [UploadRecord.isExpiredAt_eq_false ht]
    rw [keep_host]
    refine accepts_of_live? hlive ?_
    rw [hasGraphSuffix, hu]
    exact congrArg Option.isSome (f.ofName?_join h.directory id)

/-- Storing that fails has refused the upload, or leaves it stored by half. -/
theorem store_error (herror : (h.store now id d content name).result = .error (.refused fault)) :
    (h.Refuses id d content name ∧
      h.store now id d content name = ⟨.error (.refused fault), h, d⟩) ∨
    ¬ h.Refuses id d content name ∧
      ∃ u, u.id = id ∧ HalfStored h d content u (h.store now id d content name) := by
  by_cases hrefuses : h.Refuses id d content name
  · obtain ⟨other, hstore⟩ := store_of_refuses hrefuses now
    rw [hstore] at herror ⊢
    cases herror
    exact .inl ⟨hrefuses, rfl⟩
  · obtain ⟨f, written, -, hwrite, hstore⟩ := store_of_not_refuses hrefuses now
    refine .inr ⟨hrefuses, ?_⟩
    rw [hstore] at herror ⊢
    cases hexpiry : now.addDays? h.days with
    | none =>
      rw [hexpiry] at herror
      cases herror
    | some expiresAt =>
      rw [hexpiry] at herror
      obtain ⟨_, -, hsaved⟩ := result_keep_eq_error_iff.1 herror
      exact ⟨_, rfl, halfStored_keep hwrite hsaved⟩

/-! ### What a failure leaves -/

/-- A call that fails leaves everything as it was exactly when no table failed to be saved.
Storing fails without a trace where it refuses the upload, and otherwise leaves it stored by half;
where nothing has expired, cleaning up fails only over the table, and the record is gone. -/
theorem leaves_iff_of_error (h : UploadHost) (d : Disk) (now : Instant) :
    (∀ id content name fault,
      (h.store now id d content name).result = .error (.refused fault) →
      h.records.get? id = none →
      ((h.store now id d content name).Leaves h d ↔ h.Refuses id d content name) ∧
      (¬ h.Refuses id d content name →
        ∃ u, u.id = id ∧ HalfStored h d content u (h.store now id d content name))) ∧
    (h.expiredIds now = [] → ∀ id fault, (h.cleanup now d id).result = .error fault →
      ¬ (h.cleanup now d id).Leaves h d ∧
      ∃ u, h.records.get? id = some u ∧ (h.cleanup now d id).host = h.without id ∧
        ((h.without id).saveRecords (removeQuietly d u.path)).1 = .error fault) := by
  refine ⟨fun id content name fault herror hfresh => ?_, fun hlive id fault herror => ?_⟩
  · rcases store_error herror with ⟨hrefuses, hstore⟩ | ⟨hrefuses, u, rfl, hhalf⟩
    · rw [hstore]
      exact ⟨iff_of_true ⟨rfl, rfl, fun _ _ => rfl⟩ hrefuses, fun hnot => absurd hrefuses hnot⟩
    · refine ⟨iff_of_false (fun hleaves => ?_) hrefuses, fun _ => ⟨u, rfl, hhalf⟩⟩
      -- the record is a new one, so the records are others
      have hget : (h.store now u.id d content name).host.records.get? u.id = some u := by
        rw [hhalf.host, get?_withRecord, if_pos rfl]
      rw [hleaves.records, hfresh] at hget
      cases hget
  · obtain ⟨u, hu, hsaved, hhost⟩ := cleanup_error hlive herror
    refine ⟨fun hleaves => ?_, u, hu, hhost, hsaved⟩
    have hget := get?_without h id id
    rw [if_pos rfl, ← hhost, hleaves.records, hu] at hget
    cases hget

/-! ### A table that is a directory -/

/-- An upload directory with a directory in the place of the table. -/
def obstructed : Disk :=
  { nodes := .ofList [(SharedDirectory.commonPath, .directory),
      (SharedDirectory.commonPath ++ "/metadata.json", .directory)] }

/-- The failure of a table in whose place a directory stands. -/
def tableObstructed : Failure :=
  .backendIo ("failed to persist temporary file: " ++ DiskFault.isDirectory.message) origin

/-- An upload whose record does not reach the table is not stored, and there is a record of it. -/
theorem store_obstructed :
    let step := SharedDirectory.idle.store 1 someId obstructed [0x73] "x.csv"
    step.result = .error (.refused tableObstructed) ∧
      (step.host.records.get? someId).any (fun u => decide (1 < u.expiresAt)) = true := by
  decide +kernel

/-- An empty upload is refused and leaves everything as it was; an upload whose record does not
reach the table is listed though it was not stored. -/
theorem leaves_of_empty_upload :
    (SharedDirectory.idle.store 1 someId obstructed [] "x.csv").Leaves SharedDirectory.idle
        obstructed ∧
      ∃ u ∈ (SharedDirectory.idle.store 1 someId obstructed [0x73] "x.csv").host.list 1,
        u.id = someId := by
  obtain ⟨hstored, -⟩ := leaves_iff_of_error SharedDirectory.idle obstructed 1
  obtain ⟨hresult, hrecord⟩ := store_obstructed
  have hempty : SharedDirectory.idle.Refuses someId obstructed [] "x.csv" := .inl rfl
  have hnot : ¬ SharedDirectory.idle.Refuses someId obstructed [0x73] "x.csv" := by
    intro hrefuses
    obtain ⟨fault, hrefused⟩ := store_of_refuses hrefuses 1
    rw [hrefused] at hrecord
    cases hrecord
  constructor
  · obtain ⟨fault, hrefused⟩ := store_of_refuses hempty 1
    exact (hstored someId [] "x.csv" fault (by rw [hrefused]) rfl).1.2 hempty
  · obtain ⟨u, hid, hhalf⟩ := (hstored someId [0x73] "x.csv" tableObstructed hresult rfl).2 hnot
    rw [hhalf.host, get?_withRecord, if_pos hid.symm] at hrecord
    exact ⟨u, hhalf.listed 1 (of_decide_eq_true hrecord), hid⟩

/-- A freshly opened host keeps an upload in memory that it failed to store. -/
theorem not_forall_leaves_of_error :
    ¬ ∀ (options : TemporaryOptions) (systemTemp : String) (start now : Instant) (before d : Disk)
      (h : UploadHost) (id : String) (content : Bytes) (name : String) (fault : Failure),
      ofOptions options systemTemp start before = (.ok h, d) → h.expiredIds now = [] →
      h.records.get? id = none →
      (h.store now id d content name).result = .error (.refused fault) →
      (h.store now id d content name).Leaves h d ∧
        ∀ u ∈ (h.store now id d content name).host.list now, u ∈ h.list now := by
  intro hall
  obtain ⟨hresult, hrecord⟩ := store_obstructed
  obtain ⟨hleaves, -⟩ := hall {} "" 0 1 obstructed obstructed SharedDirectory.idle someId [0x73]
    "x.csv" tableObstructed (by decide +kernel) rfl rfl hresult
  rw [hleaves.records] at hrecord
  cases hrecord

end UploadHost

end MotifQuery
