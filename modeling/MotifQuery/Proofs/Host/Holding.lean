import MotifQuery.Proofs.Host.Uploads

/-!
# `MotifQuery.Proofs.Host.Holding`: an upload among the records of a host

A host holds an upload (`Holds`) when the record stands under its id and nothing else goes by
that id, neither as a key nor inside another record. Purging before the upload expires, storing
under another id and cleaning up another id keep it held, and keep its file where no other
record names that file (`NamesApart`). A host that holds an upload no more never gets it back:
`Lacks` and `Only` hold of the records that are left, since these are among those before.
-/

set_option autoImplicit false

namespace MotifQuery.UploadHost

open Text

variable {h : UploadHost} {u : UploadRecord} {d : Disk} {now : Instant} {id name : String}
  {content : Bytes}

/-- No record of the host goes by the id. -/
def Lacks (h : UploadHost) (id : String) : Prop :=
  ∀ entry ∈ h.records.entries, entry.1 ≠ id ∧ entry.2.id ≠ id

instance (h : UploadHost) (id : String) : Decidable (h.Lacks id) := by
  unfold Lacks
  infer_instance

/-- What goes by the id of the upload is the upload. -/
def Only (h : UploadHost) (u : UploadRecord) : Prop :=
  ∀ entry ∈ h.records.entries, entry.1 = u.id ∨ entry.2.id = u.id → entry = (u.id, u)

/-- The file of the upload has a name that no other record has for its file. -/
def NamesApart (h : UploadHost) (u : UploadRecord) : Prop :=
  ∀ entry ∈ h.records.entries, entry ≠ (u.id, u) → lastName entry.2.path ≠ lastName u.path

/-- The upload is among the records, and nothing else goes by its id. -/
structure Holds (h : UploadHost) (u : UploadRecord) : Prop where
  stored : h.records.get? u.id = some u
  only : h.Only u

/-! ### Records that are left -/

/-- The records of the first host are among those of the second. -/
def Within (h' h : UploadHost) : Prop :=
  ∀ entry ∈ h'.records.entries, entry ∈ h.records.entries

theorem within_of_get? {h' : UploadHost}
    (hget : ∀ key u, h'.records.get? key = some u → h.records.get? key = some u) :
    h'.Within h := by
  rintro ⟨key, u⟩ hentry
  exact Dict.mem_entries_iff.2 (hget key u (Dict.mem_entries_iff.1 hentry))

theorem Within.trans {h₁ h₂ h₃ : UploadHost} (h₁₂ : h₁.Within h₂) (h₂₃ : h₂.Within h₃) :
    h₁.Within h₃ :=
  fun entry hentry => h₂₃ entry (h₁₂ entry hentry)

theorem within_purge (h : UploadHost) (now : Instant) (d : Disk) :
    (h.purge now d).host.Within h := by
  refine within_of_get? fun key u hu => ?_
  rw [get?_purge] at hu
  split at hu
  · cases hu
  · exact hu

theorem get?_without (h : UploadHost) (id key : String) :
    (h.without id).records.get? key = if key = id then none else h.records.get? key :=
  h.records.get?_erase id key

theorem within_without (h : UploadHost) (id : String) : (h.without id).Within h := by
  refine within_of_get? fun key u hu => ?_
  rw [get?_without] at hu
  split at hu
  · cases hu
  · exact hu

theorem within_cleanup (h : UploadHost) (now : Instant) (d : Disk) (id : String) :
    (h.cleanup now d id).host.Within h := by
  rcases h.cleanup_cases now d id with
    ⟨-, hcleanup⟩ | ⟨v, -, ⟨f, -, hcleanup⟩ | ⟨-, hcleanup⟩⟩
  · rw [hcleanup]
    exact within_purge h now d
  · rw [hcleanup]
    exact within_without h id
  · rw [hcleanup]
    exact (within_purge _ now _).trans (within_without h id)

/-- Storing adds at most the record of the upload. -/
theorem mem_store {entry : String × UploadRecord}
    (hentry : entry ∈ (h.store now id d content name).host.records.entries) :
    entry ∈ h.records.entries ∨
      ∃ f expiresAt, entry = (id, h.record now id content name f expiresAt) := by
  rcases h.store_cases now id d content name with
    ⟨fault, hstore⟩ | ⟨f, written, -, -, hstore | ⟨expiresAt, -, hstore⟩⟩
  · rw [hstore] at hentry
    exact .inl hentry
  · rw [hstore] at hentry
    exact .inl hentry
  · obtain ⟨key, v⟩ := entry
    rw [hstore, keep_host, Dict.mem_entries_iff, get?_withRecord] at hentry
    split at hentry
    · next hkey =>
      cases hentry
      exact .inr ⟨f, expiresAt, Prod.ext hkey rfl⟩
    · exact .inl (Dict.mem_entries_iff.2 hentry)

theorem Only.within {h' : UploadHost} (honly : h.Only u) (hwithin : h'.Within h) : h'.Only u :=
  fun entry hentry => honly entry (hwithin entry hentry)

theorem NamesApart.within {h' : UploadHost} (hapart : h.NamesApart u) (hwithin : h'.Within h) :
    h'.NamesApart u :=
  fun entry hentry => hapart entry (hwithin entry hentry)

theorem Only.store (honly : h.Only u) (hid : id ≠ u.id) :
    (h.store now id d content name).host.Only u := by
  intro entry hentry hgoes
  rcases mem_store hentry with hold | ⟨f, expiresAt, rfl⟩
  · exact honly entry hold hgoes
  · exact absurd (hgoes.elim (fun hkey => hkey) (fun hrecord => hrecord)) hid

theorem NamesApart.store (hapart : h.NamesApart u)
    (hname : ∀ f : GraphFormat, lastName id ++ f.suffix ≠ lastName u.path) :
    (h.store now id d content name).host.NamesApart u := by
  intro entry hentry hne
  rcases mem_store hentry with hold | ⟨f, expiresAt, rfl⟩
  · exact hapart entry hold hne
  · show lastName (h.filePath id f) ≠ lastName u.path
    rw [lastName_filePath]
    exact hname f

/-! ### An upload that stays -/

/-- Where nothing else goes by the id of a living upload, no purge is after it. -/
theorem Only.not_mem_expiredIds (honly : h.Only u) (hlive : u.isExpiredAt now = false) :
    u.id ∉ h.expiredIds now := by
  intro hmem
  obtain ⟨v, hv, hid⟩ := List.mem_map.1 hmem
  obtain ⟨hvalue, hexpired⟩ := List.mem_filter.1 hv
  obtain ⟨entry, hentry, rfl⟩ := List.mem_map.1 hvalue
  have hu : entry = (u.id, u) := honly entry hentry (.inr hid)
  rw [hu] at hexpired
  rw [hlive] at hexpired
  cases hexpired

theorem Holds.purge (hholds : h.Holds u) (hlive : u.isExpiredAt now = false) :
    (h.purge now d).host.Holds u where
  stored := by
    rw [get?_purge, if_neg (hholds.only.not_mem_expiredIds hlive)]
    exact hholds.stored
  only := hholds.only.within (within_purge h now d)

theorem Holds.without (hholds : h.Holds u) (hid : id ≠ u.id) : (h.without id).Holds u where
  stored := by
    rw [get?_without, if_neg hid.symm]
    exact hholds.stored
  only := hholds.only.within (within_without h id)

/-- Cleaning up another id keeps a living upload. -/
theorem Holds.cleanup (hholds : h.Holds u) (hlive : u.isExpiredAt now = false) (hid : id ≠ u.id) :
    (h.cleanup now d id).host.Holds u := by
  rcases h.cleanup_cases now d id with
    ⟨-, hcleanup⟩ | ⟨v, -, ⟨f, -, hcleanup⟩ | ⟨-, hcleanup⟩⟩
  · rw [hcleanup]
    exact hholds.purge hlive
  · rw [hcleanup]
    exact hholds.without hid
  · rw [hcleanup]
    exact (hholds.without hid).purge hlive

/-- Storing under another id keeps an upload. -/
theorem Holds.store (hholds : h.Holds u) (hid : id ≠ u.id) :
    (h.store now id d content name).host.Holds u := by
  refine ⟨?_, hholds.only.store hid⟩
  rcases h.store_cases now id d content name with
    ⟨fault, hstore⟩ | ⟨f, written, -, -, hstore | ⟨expiresAt, -, hstore⟩⟩
  · rw [hstore]
    exact hholds.stored
  · rw [hstore]
    exact hholds.stored
  · have hne : u.id ≠ (h.record now id content name f expiresAt).id := Ne.symm hid
    rw [hstore, keep_host, get?_withRecord, if_neg hne]
    exact hholds.stored

/-- A host that lacks an id holds an upload that is stored under it. -/
theorem Lacks.holds_withRecord (hlacks : h.Lacks u.id) : (h.withRecord u).Holds u where
  stored := by rw [get?_withRecord, if_pos rfl]
  only := by
    rintro ⟨key, v⟩ hentry hgoes
    rw [Dict.mem_entries_iff, get?_withRecord] at hentry
    split at hentry
    · next hkey =>
      cases hentry
      rw [hkey]
    · have hold := hlacks (key, v) (Dict.mem_entries_iff.2 hentry)
      exact absurd hgoes (not_or.2 hold)

/-! ### An upload in a listing -/

/-- A living upload that is held is listed once. -/
theorem Holds.count_list (hholds : h.Holds u) (hlive : u.isExpiredAt now = false) :
    ((h.list now).map (·.id)).count u.id = 1 := by
  have hperm := (List.mergeSort_perm (h.records.values.filter fun v => !v.isExpiredAt now)
    UploadRecord.listedBefore).map (·.id)
  have hmem : (u.id, u) ∈ h.records.entries := Dict.mem_entries_iff.2 hholds.stored
  rw [UploadHost.list, hperm.count_eq, List.count_eq_countP, List.countP_map, List.countP_filter,
    Dict.values, List.countP_map]
  have hsame : ∀ entry ∈ h.records.entries,
      (((fun v : UploadRecord => ((· == u.id) ∘ (·.id)) v && !v.isExpiredAt now) ∘ Prod.snd) entry
        = true ↔ (entry == (u.id, u)) = true) := by
    intro entry hentry
    simp only [Function.comp_apply, Bool.and_eq_true, beq_iff_eq, Bool.not_eq_true']
    constructor
    · rintro ⟨hid, -⟩
      exact hholds.only entry hentry (.inr hid)
    · rintro rfl
      exact ⟨rfl, hlive⟩
  rw [List.countP_congr hsame, ← List.count_eq_countP]
  exact List.count_eq_one_of_mem (List.Nodup.of_map _ h.records.nodup_keys) hmem

/-- An expired upload is not listed, and no other goes by its id. -/
theorem Only.not_mem_list (honly : h.Only u) (hexpired : u.isExpiredAt now = true) :
    u.id ∉ (h.list now).map (·.id) := by
  intro hmem
  obtain ⟨v, hv, hid⟩ := List.mem_map.1 hmem
  obtain ⟨hvalue, hlive⟩ := mem_list_iff.1 hv
  obtain ⟨entry, hentry, rfl⟩ := List.mem_map.1 hvalue
  rw [honly entry hentry (.inr hid), hexpired] at hlive
  cases hlive

/-! ### A file that stays -/

/-- Storing keeps the files of other names. -/
theorem keepsFile_store {path : String} (htable : lastName path ∉ tableNames)
    (hname : ∀ f : GraphFormat, lastName id ++ f.suffix ≠ lastName path) :
    d.KeepsFile path (h.store now id d content name).disk := by
  rcases h.store_cases now id d content name with
    ⟨fault, hstore⟩ | ⟨f, written, -, hwrite, hstore⟩
  · rw [hstore]
    exact .refl path d
  · have hkeeps : d.KeepsFile path written := by
      refine Disk.keepsFile_write hwrite ?_
      rw [lastName_filePath]
      exact hname f
    rcases hstore with hstore | ⟨expiresAt, -, hstore⟩
    · rw [hstore]
      exact hkeeps
    · rw [hstore, keep_disk]
      exact hkeeps.trans (keepsFile_saveRecords _ _ htable)

/-- An upload that is refused leaves the files of other names, those of the table too. -/
theorem Lacks.keepsFile_store {path : String} (hlacks : h.Lacks id)
    (hsame : (h.store now id d content name).host = h)
    (hname : ∀ f : GraphFormat, lastName id ++ f.suffix ≠ lastName path) :
    d.KeepsFile path (h.store now id d content name).disk := by
  rcases h.store_cases now id d content name with
    ⟨fault, hstore⟩ | ⟨f, written, -, hwrite, hstore | ⟨expiresAt, -, hstore⟩⟩
  · rw [hstore]
    exact .refl path d
  · rw [hstore]
    refine Disk.keepsFile_write hwrite ?_
    rw [lastName_filePath]
    exact hname f
  · rw [hstore, keep_host] at hsame
    -- a host that lacks the id is another one with the record
    have hget : h.records.get? id = some (h.record now id content name f expiresAt) := by
      rw [← hsame]
      exact (Dict.get?_insert _ _ _ _).trans (if_pos rfl)
    exact absurd rfl (hlacks _ (Dict.mem_entries_iff.2 hget)).1

/-- A purge keeps the file of a living upload. -/
theorem Holds.keepsFile_purge (hholds : h.Holds u) (hapart : h.NamesApart u)
    (hlive : u.isExpiredAt now = false) (htable : lastName u.path ∉ tableNames) :
    d.KeepsFile u.path (h.purge now d).disk := by
  refine UploadHost.keepsFile_purge h now d htable fun key hkey v hv => ?_
  refine hapart (key, v) (Dict.mem_entries_iff.2 hv) fun hentry => ?_
  rw [(Prod.mk.inj hentry).1] at hkey
  exact hholds.only.not_mem_expiredIds hlive hkey

/-- Cleaning up another id keeps the file of a living upload. -/
theorem Holds.keepsFile_cleanup (hholds : h.Holds u) (hapart : h.NamesApart u)
    (hlive : u.isExpiredAt now = false) (htable : lastName u.path ∉ tableNames)
    (hid : id ≠ u.id) : d.KeepsFile u.path (h.cleanup now d id).disk := by
  rcases h.cleanup_cases now d id with ⟨-, hcleanup⟩ | ⟨v, hv, hcleanup⟩
  · rw [hcleanup]
    exact hholds.keepsFile_purge hapart hlive htable
  · have hentry : (id, v) ≠ (u.id, u) := fun hentry => hid (Prod.mk.inj hentry).1
    have hremove := Disk.keepsFile_removeQuietly (d := d)
      (hapart (id, v) (Dict.mem_entries_iff.2 hv) hentry)
    have hsave := hremove.trans (keepsFile_saveRecords (h.without id) _ htable)
    rcases hcleanup with ⟨f, -, hcleanup⟩ | ⟨-, hcleanup⟩
    · rw [hcleanup]
      exact hsave
    · rw [hcleanup]
      exact hsave.trans ((hholds.without hid).keepsFile_purge
        (hapart.within (within_without h id)) hlive htable)

end MotifQuery.UploadHost
