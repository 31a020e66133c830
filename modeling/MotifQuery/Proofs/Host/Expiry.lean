import MotifQuery.Proofs.Host.Atomicity

/-!
# `MotifQuery.Proofs.Host.Expiry`: uploads that would outlive the calendar

An upload expires some days after it was stored, and the calendar ends. Configurations take any
number of days below 2³², many more than the calendar has.

As long as the calendar reaches the expiry, storing gives a record or an error, and every file
that it leaves in the directory was there before or is named by a record
(`UploadHost.store_settles`). Beyond it there is neither, and since the expiry is computed when
the file is written already, the file stays with no record that names it.
-/

set_option autoImplicit false

namespace MotifQuery.UploadHost

variable {h : UploadHost} {d : Disk} {now : Instant} {id name : String} {content : Bytes}
  {f : GraphFormat}

/-- The instant at which an upload expires that is stored now. -/
def expiry (h : UploadHost) (now : Instant) : Instant :=
  now + h.days * Instant.perDay * Instant.perSecond

/-- The step leaves a file in the directory that was not there, and no record names it. -/
def LeavesOrphan {α : Type} (h : UploadHost) (d : Disk) (step : UploadStep α) (file : String) :
    Prop :=
  (∃ found, step.disk.lookup (Disk.join h.directory file) = .ok (.file found) ∧
      d.lookup (Disk.join h.directory file) ≠ .ok (.file found)) ∧
    ∀ key u, step.host.records.get? key = some u → u.path ≠ Disk.join h.directory file

/-- Storing runs past the calendar when the file could be written and the expiry lies beyond. -/
theorem store_eq_beyondCalendar_iff (hcontent : content ≠ [])
    (hsuffix : storedSuffix? name = some f.suffix) :
    (h.store now id d content name).result = .error .beyondCalendar ↔
      (∃ written, d.write (h.filePath id f) content = .ok written) ∧
        Instant.limit ≤ h.expiry now := by
  rw [store_eq hcontent hsuffix, expiry, ← Instant.addDays?_eq_none_iff]
  cases hwrite : d.write (h.filePath id f) content with
  | error fault => exact iff_of_false nofun (by rintro ⟨⟨_, ⟨⟩⟩, -⟩)
  | ok written =>
    dsimp only
    cases now.addDays? h.days with
    | none => exact iff_of_true rfl ⟨⟨written, rfl⟩, rfl⟩
    | some expiresAt =>
      refine iff_of_false (fun herror => ?_) (by rintro ⟨-, ⟨⟩⟩)
      obtain ⟨fault, hfault, -⟩ := result_keep_eq_error_iff.1 herror
      cases hfault

/-- A record that is made names the only new file, whether the table is saved or not. -/
theorem not_leavesOrphan_keep {written : Disk} {expiresAt : Instant} {file : String}
    (hid : IsUuid id) (hwrite : d.write (h.filePath id f) content = .ok written)
    (hfile : Disk.PlainName file) (htable : file ∉ tableNames) :
    ¬ LeavesOrphan h d (h.keep written (h.record now id content name f expiresAt)) file := by
  rintro ⟨⟨found, hafter, hbefore⟩, hnamed⟩
  have hlast : lastName (Disk.join h.directory file) = file := by
    rw [Disk.lastName_join, lastName_of_not_mem hfile.stroke]
  rw [keep_disk] at hafter
  rw [keep_host] at hnamed
  by_cases hnew : id ++ f.suffix = file
  · refine hnamed id (h.record now id content name f expiresAt) ?_ ?_
    · rw [get?_withRecord]
      exact if_pos rfl
    · rw [← hnew]
      rfl
  · have hname : lastName (h.filePath id f) ≠ lastName (Disk.join h.directory file) := by
      rwa [lastName_filePath, hid.lastName_eq, hlast]
    have hsame := (Disk.sameFile_write hwrite hname).trans
      (sameFile_saveRecords (h.withRecord (h.record now id content name f expiresAt)) written
        (hlast.symm ▸ htable))
    exact hbefore ((hsame found).2 hafter)

/-- As long as the calendar reaches the expiry, storing an upload with a content and a format gives
a record or an error, and it leaves no file that no record names. Beyond the calendar it gives
neither, and the file that was written stays without a record. -/
theorem store_settles (h : UploadHost) (d : Disk) (now : Instant) (hid : IsUuid id)
    (hcontent : content ≠ []) (hsuffix : storedSuffix? name = some f.suffix) :
    (h.expiry now < Instant.limit →
      ((∃ u, (h.store now id d content name).result = .ok u) ∨
        ∃ fault, (h.store now id d content name).result = .error (.refused fault)) ∧
      ∀ file, Disk.PlainName file → file ∉ tableNames →
        ¬ LeavesOrphan h d (h.store now id d content name) file) ∧
    (Instant.limit ≤ h.expiry now → ∀ written, d.write (h.filePath id f) content = .ok written →
      h.store now id d content name = ⟨.error .beyondCalendar, h, written⟩ ∧
      written.lookup (h.filePath id f) = .ok (.file content)) := by
  refine ⟨fun hreached => ⟨?_, fun file hfile htable => ?_⟩, fun hbeyond written hwrite => ?_⟩
  · have hnot : (h.store now id d content name).result ≠ .error .beyondCalendar := fun hbeyond =>
      Int.not_le.2 hreached ((store_eq_beyondCalendar_iff hcontent hsuffix).1 hbeyond).2
    rcases hresult : (h.store now id d content name).result with (fault | _) | u
    · exact .inr ⟨fault, rfl⟩
    · exact absurd hresult hnot
    · exact .inl ⟨u, rfl⟩
  · obtain ⟨expiresAt, hexpiry⟩ : ∃ expiresAt, now.addDays? h.days = some expiresAt :=
      Option.ne_none_iff_exists'.1 fun hnone =>
        Int.not_le.2 hreached (Instant.addDays?_eq_none_iff.1 hnone)
    rw [store_eq hcontent hsuffix, hexpiry]
    cases hwrite : d.write (h.filePath id f) content with
    | error fault => exact fun ⟨⟨_, hafter, hbefore⟩, _⟩ => hbefore hafter
    | ok written => exact not_leavesOrphan_keep hid hwrite hfile htable
  · have hnone := Instant.addDays?_eq_none_iff.2 hbeyond
    rw [store_eq hcontent hsuffix, hwrite, hnone]
    exact ⟨rfl, Disk.lookup_write hwrite⟩

/-- An upload that lives for two weeks is stored, and leaves no file without a record. -/
theorem store_settles_of_two_weeks :
    (∃ u, (SharedDirectory.idle.store 1 someId SharedDirectory.bare [0x73] "x.csv").result
      = .ok u) ∧
      ∀ file, Disk.PlainName file → file ∉ tableNames → ¬ LeavesOrphan SharedDirectory.idle
        SharedDirectory.bare
        (SharedDirectory.idle.store 1 someId SharedDirectory.bare [0x73] "x.csv") file := by
  have hsuffix : storedSuffix? "x.csv" = some GraphFormat.edgeList.suffix := by decide
  obtain ⟨hreached, -⟩ := store_settles SharedDirectory.idle SharedDirectory.bare 1
    (show IsUuid someId by decide) (List.cons_ne_nil 0x73 []) hsuffix
  obtain ⟨-, horphan⟩ := hreached (by decide +kernel)
  obtain ⟨u, hu, -⟩ := exists_of_any_toOption
    (show (SharedDirectory.idle.store 1 someId SharedDirectory.bare [0x73]
      "x.csv").result.toOption.any (fun _ => true) = true by decide +kernel)
  exact ⟨⟨u, hu⟩, horphan⟩

/-- A configuration of uploads that live longer than the calendar reaches. -/
def lastingConfig : ProviderConfig :=
  { id := "tmp", type := "temporary", arguments := .obj [("expiration_days", .int 4294967295)] }

/-- A configuration may ask for more days than the calendar has. Then the first upload is given
up, and its file stays. -/
theorem not_forall_store_settles :
    ¬ ∀ (c : ProviderConfig) (options : TemporaryOptions) (systemTemp : String)
      (start now : Instant) (before d : Disk) (h : UploadHost) (id : String) (content : Bytes)
      (name : String), c.kind = .ok (.temporary options) →
      ofOptions options systemTemp start before = (.ok h, d) → Instant.InCalendar now →
      IsUuid id → content ≠ [] → (storedSuffix? name).isSome = true →
      (h.store now id d content name).result ≠ .error .beyondCalendar ∧
        ∀ file, Disk.PlainName file → file ∉ tableNames →
          ¬ LeavesOrphan h d (h.store now id d content name) file := by
  intro hall
  obtain ⟨hsettles, -⟩ := hall lastingConfig { expirationDays := 4294967295 } "" 0 1 .empty
    SharedDirectory.bare lasting someId [0x73] "x.csv" (by decide +kernel) (by decide +kernel)
    inCalendar_one (by decide) (List.cons_ne_nil 0x73 []) (by decide)
  exact hsettles (show givenUp.result = .error .beyondCalendar by decide +kernel)

end MotifQuery.UploadHost
