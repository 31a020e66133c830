import MotifQuery.Proofs.Disk.Directory
import MotifQuery.Proofs.Host.Provider
import MotifQuery.Proofs.Host.Table

/-!
# `MotifQuery.Proofs.Host.Housed`: an upload host and what is in its directory

A host is at home in a directory (`UploadHost.Housed`) when each record has its file there and
the table is that of the records, or there are neither records nor a table. What the operations
that succeed do to a host at home is said twice at once, for the records and for the files of
the directory: purging and cleaning up take some uploads (`UploadHost.Takes`), and storing adds
one (`Housed.store`). All of them leave the host at home.
-/

set_option autoImplicit false

namespace MotifQuery

open Text

theorem IsUuid.plainName {id : String} (h : IsUuid id) (f : GraphFormat) :
    Disk.PlainName (id ++ f.suffix) := by
  refine Disk.plainName_append_suffix (fun c hc => ?_) (by rw [h.length]; decide) f
  constructor
  · rcases h.chars c hc with rfl | ⟨-, hle⟩ | ⟨-, hle⟩
    · decide
    · exact Nat.lt_of_le_of_lt (UInt32.le_iff_toNat_le.1 (Char.le_def.1 hle)) (by decide)
    · exact Nat.lt_of_le_of_lt (UInt32.le_iff_toNat_le.1 (Char.le_def.1 hle)) (by decide)
  · rintro rfl
    rcases h.chars '/' hc with heq | hdigit | hletter
    · exact absurd heq (by decide)
    · exact absurd hdigit (by decide)
    · exact absurd hletter (by decide)

namespace UploadRecord

/-- The name of the file of an upload. -/
def fileName (u : UploadRecord) : String :=
  lastName u.path

/-- A record as a host in the directory makes it: it goes by a UUID, its file stands in the
directory under the id, and it can be read back. -/
structure Genuine (directory : String) (u : UploadRecord) : Prop where
  uuid : IsUuid u.id
  path : ∃ f : GraphFormat, u.path = Disk.join directory (u.id ++ f.suffix)
  usable : Disk.Usable u.path
  readable : u.Readable

namespace Genuine

variable {directory : String} {u v : UploadRecord}

theorem exists_fileName_eq (h : u.Genuine directory) :
    ∃ f : GraphFormat, u.fileName = u.id ++ f.suffix := by
  obtain ⟨f, hpath⟩ := h.path
  refine ⟨f, ?_⟩
  rw [fileName, hpath, Disk.lastName_join, lastName_append _ f.stroke_not_mem_suffix,
    h.uuid.lastName_eq]

theorem path_eq (h : u.Genuine directory) : u.path = Disk.join directory u.fileName := by
  obtain ⟨f, hpath⟩ := h.path
  rw [fileName, hpath, Disk.lastName_join, lastName_append _ f.stroke_not_mem_suffix,
    h.uuid.lastName_eq]

theorem plainName (h : u.Genuine directory) : Disk.PlainName u.fileName := by
  obtain ⟨f, hname⟩ := h.exists_fileName_eq
  rw [hname]
  exact h.uuid.plainName f

theorem not_mem_tableNames (h : u.Genuine directory) : u.fileName ∉ UploadHost.tableNames := by
  obtain ⟨f, hname⟩ := h.exists_fileName_eq
  rw [hname]
  exact UploadHost.append_suffix_not_mem_tableNames u.id f

/-- Different uploads have files of different names. -/
theorem id_eq (hu : u.Genuine directory) (hv : v.Genuine directory)
    (h : u.fileName = v.fileName) : u.id = v.id := by
  obtain ⟨f, hf⟩ := hu.exists_fileName_eq
  obtain ⟨g, hg⟩ := hv.exists_fileName_eq
  rw [hf, hg] at h
  exact GraphFormat.append_suffix_inj h

end Genuine

end UploadRecord

namespace UploadHost

variable {h h' : UploadHost} {d d' : Disk} {p : DiskPlace} {now : Instant} {id name : String}
  {content : Bytes} {u : UploadRecord}

theorem plainName_table : Disk.PlainName "metadata.json" :=
  ⟨by decide, by decide, by decide, by decide, by decide⟩

theorem plainName_lock : Disk.PlainName ".metadata.lock" :=
  ⟨by decide, by decide, by decide, by decide, by decide⟩

/-! ### Taking uploads -/

/-- Each record of the host is filed in the directory under its id. -/
structure Filed (h : UploadHost) (d : Disk) (p : DiskPlace) : Prop where
  opens : d.Opens h.directory p
  key : ∀ {id u}, h.records.get? id = some u → u.id = id
  genuine : ∀ {id u}, h.records.get? id = some u → u.Genuine h.directory
  file : ∀ {id u}, h.records.get? id = some u →
    ∃ content, d.node? (p.child u.fileName) = some (.file content)

/-- A step takes the uploads with a property, their records and their files, and leaves all
others. -/
structure Takes (P : UploadRecord → Prop) (p : DiskPlace) (h : UploadHost) (d : Disk)
    (h' : UploadHost) (d' : Disk) : Prop where
  directory : h'.directory = h.directory
  opens : d'.Opens h.directory p
  records : ∀ id u, h'.records.get? id = some u ↔ h.records.get? id = some u ∧ ¬ P u
  nodes : ∀ name ∉ tableNames, ∀ node, d'.node? (p.child name) = some node ↔
    d.node? (p.child name) = some node ∧
      ∀ u, h.records.get? u.id = some u → u.fileName = name → ¬ P u

namespace Filed

theorem lookup_path (hfiled : h.Filed d p) (hu : h.records.get? id = some u) :
    ∃ content, d.lookup u.path = .ok (.file content) := by
  obtain ⟨content, hnode⟩ := hfiled.file hu
  have hgenuine := hfiled.genuine hu
  refine ⟨content, ?_⟩
  rw [hgenuine.path_eq, hfiled.opens.lookup_join hgenuine.plainName]
  · exact hnode
  · rw [← hgenuine.path_eq]
    exact hgenuine.usable

/-- Two records that name one file are one. -/
theorem eq_of_fileName {v : UploadRecord} (hfiled : h.Filed d p)
    (hu : h.records.get? u.id = some u) (hv : h.records.get? v.id = some v)
    (hname : u.fileName = v.fileName) : u = v := by
  rw [(hfiled.genuine hu).id_eq (hfiled.genuine hv) hname, hv] at hu
  exact (Option.some.inj hu).symm

/-- What is left after uploads are taken is filed. -/
theorem of_takes {P : UploadRecord → Prop} (hfiled : h.Filed d p) (htakes : Takes P p h d h' d') :
    h'.Filed d' p where
  opens := htakes.directory ▸ htakes.opens
  key hu := hfiled.key ((htakes.records _ _).1 hu).1
  genuine hu := htakes.directory ▸ hfiled.genuine ((htakes.records _ _).1 hu).1
  file {id u} hu := by
    obtain ⟨hold, hP⟩ := (htakes.records _ _).1 hu
    obtain ⟨content, hnode⟩ := hfiled.file hold
    have hself : h.records.get? u.id = some u := hfiled.key hold ▸ hold
    refine ⟨content, (htakes.nodes _ (hfiled.genuine hold).not_mem_tableNames _).2
      ⟨hnode, fun v hv hname => ?_⟩⟩
    rwa [hfiled.eq_of_fileName hv hself hname]

theorem takes_none (hfiled : h.Filed d p) {P : UploadRecord → Prop}
    (hnone : ∀ u, h.records.get? u.id = some u → ¬ P u) : Takes P p h d h d where
  directory := rfl
  opens := hfiled.opens
  records id u := by
    refine ⟨fun hu => ⟨hu, hnone u ?_⟩, And.left⟩
    rw [hfiled.key hu]
    exact hu
  nodes name _ node := ⟨fun hnode => ⟨hnode, fun u hu _ => hnone u hu⟩, And.left⟩

end Filed

namespace Takes

variable {P Q : UploadRecord → Prop}

theorem congr (htakes : Takes P p h d h' d') (hfiled : h.Filed d p)
    (hPQ : ∀ u, h.records.get? u.id = some u → (P u ↔ Q u)) : Takes Q p h d h' d' where
  directory := htakes.directory
  opens := htakes.opens
  records id u := by
    rw [htakes.records]
    refine and_congr_right fun hu => not_congr (hPQ u ?_)
    rw [hfiled.key hu]
    exact hu
  nodes name hname node := by
    rw [htakes.nodes name hname]
    exact and_congr_right fun _ => forall₃_congr fun u hu _ => not_congr (hPQ u hu)

/-- Taking uploads and then others takes both. -/
theorem trans {h'' : UploadHost} {d'' : Disk} (hfirst : Takes P p h d h' d')
    (hsecond : Takes Q p h' d' h'' d'') :
    Takes (fun u => P u ∨ Q u) p h d h'' d'' where
  directory := hsecond.directory.trans hfirst.directory
  opens := hfirst.directory ▸ hsecond.opens
  records id u := by rw [hsecond.records, hfirst.records, and_assoc, not_or]
  nodes name hname node := by
    rw [hsecond.nodes name hname, hfirst.nodes name hname, and_assoc]
    refine and_congr_right fun _ => ⟨fun ⟨hP, hQ⟩ u hu hfile => ?_, fun hPQ => ⟨?_, ?_⟩⟩
    · have hnot := hP u hu hfile
      exact not_or.2 ⟨hnot, hQ u ((hfirst.records _ _).2 ⟨hu, hnot⟩) hfile⟩
    · exact fun u hu hfile => (not_or.1 (hPQ u hu hfile)).1
    · exact fun u hu hfile => (not_or.1 (hPQ u ((hfirst.records _ _).1 hu).1 hfile)).2

end Takes

/-- Dropping an id takes the upload with the id. -/
theorem Filed.takes_drop (hfiled : h.Filed d p) (id : String) :
    Takes (·.id = id) p h d (drop (h, d) id).1 (drop (h, d) id).2 := by
  unfold drop
  dsimp only
  split
  · next u hu =>
    -- the file is there, so removing it quietly removes it
    have hid := hfiled.key hu
    have hgenuine := hfiled.genuine hu
    obtain ⟨content, hlookup⟩ := hfiled.lookup_path hu
    obtain ⟨e, hremove⟩ := Disk.exists_remove hlookup
    have hquiet : removeQuietly d u.path = e := by
      unfold removeQuietly
      rw [hremove]
      rfl
    rw [hgenuine.path_eq] at hremove
    obtain ⟨hopens, hnodes⟩ := hfiled.opens.of_remove hgenuine.plainName hremove
    rw [hquiet]
    have hself : h.records.get? u.id = some u := hid.symm ▸ hu
    refine ⟨rfl, hopens, fun key v => ?_, fun name _ node => ?_⟩
    · show (h.records.erase id).get? key = some v ↔ _
      rw [Dict.get?_erase]
      split
      · next hkey =>
        refine ⟨nofun, fun ⟨hv, hne⟩ => absurd (hfiled.key hv) ?_⟩
        rw [hkey]
        exact hne
      · next hkey =>
        exact ⟨fun hv => ⟨hv, fun hvid => hkey ((hfiled.key hv).symm.trans hvid)⟩, And.left⟩
    · rw [hnodes]
      split
      · next hname => exact ⟨nofun, fun ⟨_, hall⟩ => absurd hid (hall u hself hname.symm)⟩
      · next hname =>
        refine ⟨fun hnode => ⟨hnode, fun v hv hfile hvid => hname ?_⟩, And.left⟩
        rw [hvid, hu] at hv
        rw [Option.some.inj hv, hfile]
  · next hnone =>
    refine hfiled.takes_none fun u hu hid => ?_
    rw [hid, hnone] at hu
    cases hu

theorem Filed.takes_foldl_drop (hfiled : h.Filed d p) (ids : List String) :
    Takes (·.id ∈ ids) p h d (ids.foldl drop (h, d)).1 (ids.foldl drop (h, d)).2 := by
  induction ids generalizing h d with
  | nil => exact hfiled.takes_none fun u _ => List.not_mem_nil
  | cons id ids ih =>
    have hfirst := hfiled.takes_drop id
    refine (hfirst.trans (ih (hfiled.of_takes hfirst))).congr hfiled fun u _ => ?_
    exact List.mem_cons.symm

/-! ### The table -/

/-- The disk has the table of the host, and what guards it. -/
structure HasTable (h : UploadHost) (d : Disk) : Prop where
  tabled : h.Tabled d
  guarded : ∃ content, d.lookup (lockPath h.directory) = .ok (.file content)

theorem lookup_guardTable {directory : String} (hguard : guardTable d directory = .ok d') :
    ∃ content, d'.lookup (lockPath directory) = .ok (.file content) := by
  unfold guardTable at hguard
  split at hguard
  · next content hfile =>
    cases hguard
    exact ⟨content, hfile⟩
  · exact ⟨[], Disk.lookup_write hguard⟩

theorem node?_guardTable (hopens : d.Opens h.directory p)
    (hguard : guardTable d h.directory = .ok d') :
    d'.Opens h.directory p ∧
      ∀ name ∉ tableNames, d'.node? (p.child name) = d.node? (p.child name) := by
  unfold guardTable at hguard
  split at hguard
  · cases hguard
    exact ⟨hopens, fun _ _ => rfl⟩
  · obtain ⟨hopens', hnodes⟩ := hopens.of_write plainName_lock hguard
    refine ⟨hopens', fun name hname => ?_⟩
    rw [hnodes, if_neg (by rintro rfl; exact hname (by decide))]

/-- What saving does when it succeeds: the table of the host is there, and the other names stand
for what they stood for. -/
theorem saveRecords_ok (hopens : d.Opens h.directory p) (hsaved : (h.saveRecords d).1 = .ok ()) :
    h.HasTable (h.saveRecords d).2 ∧ (h.saveRecords d).2.Opens h.directory p ∧
      ∀ name ∉ tableNames, (h.saveRecords d).2.node? (p.child name) = d.node? (p.child name) := by
  obtain ⟨guarded, saved, hguard, hsave, heq⟩ : ∃ guarded saved,
      guardTable d h.directory = .ok guarded ∧
      guarded.write (tablePath h.directory)
        (bytesOf (Json.object (h.records.map UploadRecord.toJson)).indented) = .ok saved ∧
      h.saveRecords d = (.ok (), saved) := by
    unfold saveRecords at hsaved ⊢
    split at hsaved
    · cases hsaved
    next guarded hguard =>
    dsimp only at hsaved
    split at hsaved
    · next saved hsave =>
      dsimp only
      rw [hsave]
      exact ⟨guarded, saved, hguard, hsave, rfl⟩
    · cases hsaved
  rw [heq]
  -- the lock file first, and then the table over the old one
  obtain ⟨hopens', hsame⟩ := node?_guardTable hopens hguard
  obtain ⟨lock, hlock⟩ := lookup_guardTable hguard
  obtain ⟨hopens'', hnodes⟩ := hopens'.of_write plainName_table hsave
  have hkeeps : guarded.KeepsFile (lockPath h.directory) saved :=
    Disk.keepsFile_write hsave (by rw [lastName_tablePath, lastName_lockPath]; decide)
  refine ⟨⟨Disk.lookup_write hsave, lock, hkeeps _ hlock⟩, hopens'', fun name hname => ?_⟩
  rw [hnodes, if_neg (by rintro rfl; exact hname (by decide)), hsame name hname]

/-- A table that is there can be written again. -/
theorem exists_saveRecords (hopens : d.Opens h.directory p) {table lock : Bytes}
    (htable : d.lookup (tablePath h.directory) = .ok (.file table))
    (hlock : d.lookup (lockPath h.directory) = .ok (.file lock)) :
    (h.saveRecords d).1 = .ok () := by
  have hguard : guardTable d h.directory = .ok d := by
    unfold guardTable
    rw [hlock]
  have hnode := (hopens.lookup_join plainName_table (Disk.usable_of_lookup htable)).1 htable
  obtain ⟨e, hwrite⟩ := hopens.exists_write plainName_table (Disk.usable_of_lookup htable)
    (by rw [hnode]; nofun)
    (bytesOf (Json.object (h.records.map UploadRecord.toJson)).indented)
  unfold saveRecords
  rw [hguard]
  dsimp only
  rw [tablePath, hwrite]

/-! ### Hosts at home -/

/-- The host is at home in the directory: its records are filed there, and the table is theirs,
or there are neither records nor a table. -/
structure Housed (h : UploadHost) (d : Disk) (p : DiskPlace) : Prop extends h.Filed d p where
  table : h.HasTable d ∨ h.records = ∅ ∧ d.node? (p.child "metadata.json") = none

theorem mem_expiredIds_iff (hfiled : h.Filed d p) (hu : h.records.get? u.id = some u) :
    u.id ∈ h.expiredIds now ↔ u.isExpiredAt now = true := by
  unfold expiredIds
  rw [List.mem_map]
  constructor
  · rintro ⟨v, hv, hid⟩
    obtain ⟨hvalue, hexpired⟩ := List.mem_filter.1 hv
    obtain ⟨entry, hentry, rfl⟩ := List.mem_map.1 hvalue
    have hget : h.records.get? entry.1 = some entry.2 := Dict.mem_entries_iff.1 hentry
    rw [← hfiled.key hget, hid, hu] at hget
    rwa [Option.some.inj hget]
  · intro hexpired
    exact ⟨u, List.mem_filter.2
      ⟨List.mem_map.2 ⟨(u.id, u), Dict.mem_entries_iff.2 hu, rfl⟩, hexpired⟩, rfl⟩

/-- Saving takes nothing and leaves the host at home. -/
theorem Filed.saveRecords (hfiled : h.Filed d p) (hsaved : (h.saveRecords d).1 = .ok ()) :
    Takes (fun _ => False) p h d h (h.saveRecords d).2 ∧ h.Housed (h.saveRecords d).2 p := by
  obtain ⟨htable, hopens, hsame⟩ := saveRecords_ok hfiled.opens hsaved
  have htakes : Takes (fun _ => False) p h d h (h.saveRecords d).2 := by
    refine ⟨rfl, hopens, fun id u => by simp, fun name hname node => ?_⟩
    rw [hsame name hname]
    simp
  exact ⟨htakes, hfiled.of_takes htakes, .inl htable⟩

namespace Housed

/-- A purge takes the uploads that are expired. -/
theorem purge (hhoused : h.Housed d p) {n : Nat} (hok : (h.purge now d).result = .ok n) :
    Takes (·.isExpiredAt now = true) p h d (h.purge now d).host (h.purge now d).disk ∧
      (h.purge now d).host.Housed (h.purge now d).disk p := by
  have hfiled := hhoused.toFiled
  have hdropped := (hfiled.takes_foldl_drop (h.expiredIds now)).congr hfiled
    fun u hu => (mem_expiredIds_iff hfiled hu : _ ↔ u.isExpiredAt now = true)
  rw [purge_eq] at hok ⊢
  dsimp only at hok ⊢
  split at hok
  · next hnone =>
    rw [List.isEmpty_iff.1 hnone] at hdropped ⊢
    exact ⟨hdropped, hhoused⟩
  · next hsome =>
    rw [if_neg hsome]
    obtain ⟨⟨⟩, hsaved, -⟩ := map_eq_ok_iff.1 hok
    obtain ⟨htakes, hhoused'⟩ := (hfiled.of_takes hdropped).saveRecords hsaved
    exact ⟨(hdropped.trans htakes).congr hfiled fun u _ => or_iff_left id, hhoused'⟩

/-- Cleaning up takes the upload with the id and those that are expired. -/
theorem cleanup (hhoused : h.Housed d p) {found : Bool}
    (hok : (h.cleanup now d id).result = .ok found) :
    Takes (fun u => u.id = id ∨ u.isExpiredAt now = true) p h d (h.cleanup now d id).host
        (h.cleanup now d id).disk ∧
      (h.cleanup now d id).host.Housed (h.cleanup now d id).disk p := by
  have hfiled := hhoused.toFiled
  rcases h.cleanup_cases now d id with
    ⟨hnone, hcleanup⟩ | ⟨u, hu, ⟨f, -, hcleanup⟩ | ⟨hsaved, hcleanup⟩⟩
  · rw [hcleanup] at hok ⊢
    obtain ⟨n, hn, -⟩ := map_eq_ok_iff.1 hok
    obtain ⟨htakes, hhoused'⟩ := hhoused.purge hn
    -- no record has the id, so what a purge takes is all
    refine ⟨htakes.congr hfiled fun v hv => (or_iff_right fun hid => ?_).symm, hhoused'⟩
    rw [hid, hnone] at hv
    cases hv
  · rw [hcleanup] at hok
    cases hok
  · rw [hcleanup] at hok ⊢
    obtain ⟨n, hn, -⟩ := map_eq_ok_iff.1 hok
    have hdrop : drop (h, d) id = (h.without id, removeQuietly d u.path) := by
      unfold drop
      dsimp only
      rw [hu]
      rfl
    have hdropped := hfiled.takes_drop id
    rw [hdrop] at hdropped
    -- the drop takes the upload, saving takes nothing, and the purge takes what is expired
    obtain ⟨hsaving, hhoused'⟩ := (hfiled.of_takes hdropped).saveRecords hsaved
    obtain ⟨hpurging, hhoused''⟩ := hhoused'.purge hn
    have hboth := hsaving.trans hpurging
    exact ⟨(hdropped.trans hboth).congr hfiled fun v _ => by simp, hhoused''⟩

/-- A purge of a host at home succeeds. -/
theorem exists_purge (hhoused : h.Housed d p) (now : Instant) :
    ∃ n, (h.purge now d).result = .ok n := by
  have hfiled := hhoused.toFiled
  rw [purge_eq]
  dsimp only
  split
  · exact ⟨0, rfl⟩
  next hsome =>
  have hdropped := hfiled.takes_foldl_drop (h.expiredIds now)
  rcases hhoused.table with ⟨htable, lock, hlock⟩ | ⟨hempty, -⟩
  · -- the files that are dropped are none of those of the table
    have hkeeps : ∀ {path : String}, lastName path ∈ tableNames →
        d.KeepsFile path ((h.expiredIds now).foldl drop (h, d)).2 := by
      intro path hpath
      refine keepsFile_foldl_drop (h.expiredIds now) (h, d) fun id _ u hu hname => ?_
      refine (hfiled.genuine hu).not_mem_tableNames ?_
      rw [UploadRecord.fileName, hname]
      exact hpath
    have hsaved := exists_saveRecords (hfiled.of_takes hdropped).opens
      (by rw [hdropped.directory]; exact hkeeps (by rw [lastName_tablePath]; decide) _ htable)
      (by rw [hdropped.directory]; exact hkeeps (by rw [lastName_lockPath]; decide) _ hlock)
    rw [hsaved]
    exact ⟨_, rfl⟩
  -- a host without a table has no records, so nothing is expired
  · refine absurd ?_ hsome
    unfold expiredIds
    rw [hempty]
    rfl

end Housed

/-! ### Storing -/

/-- Writing the file of an upload leaves the records filed and changes what one name stands
for. -/
theorem Filed.write {f : GraphFormat} (hfiled : h.Filed d p) (huuid : IsUuid id)
    (hwrite : d.write (h.filePath id f) content = .ok d') :
    h.Filed d' p ∧ ∀ name, d'.node? (p.child name)
      = if name = id ++ f.suffix then some (.file content) else d.node? (p.child name) := by
  obtain ⟨hopens, hnodes⟩ := hfiled.opens.of_write (huuid.plainName f) hwrite
  refine ⟨⟨hopens, hfiled.key, hfiled.genuine, fun hu => ?_⟩, hnodes⟩
  rw [hnodes]
  split
  · exact ⟨content, rfl⟩
  · exact hfiled.file hu

/-- The record of a file that is there is filed with the others. -/
theorem Filed.withRecord (hfiled : h.Filed d p) (hgenuine : u.Genuine h.directory)
    (hfile : ∃ content, d.node? (p.child u.fileName) = some (.file content)) :
    (h.withRecord u).Filed d p := by
  have hcases : ∀ {key v}, (h.withRecord u).records.get? key = some v →
      (key = u.id ∧ v = u) ∨ h.records.get? key = some v := by
    intro key v hv
    rw [get?_withRecord] at hv
    split at hv
    · next hkey => exact .inl ⟨hkey, (Option.some.inj hv).symm⟩
    · exact .inr hv
  refine ⟨hfiled.opens, fun hv => ?_, fun hv => ?_, fun hv => ?_⟩
  · exact (hcases hv).elim (fun ⟨hkey, hvu⟩ => hvu ▸ hkey.symm) hfiled.key
  · exact (hcases hv).elim (fun ⟨_, hvu⟩ => hvu ▸ hgenuine) hfiled.genuine
  · exact (hcases hv).elim (fun ⟨_, hvu⟩ => hvu ▸ hfile) hfiled.file

/-- A store that runs past the calendar has written its file before. -/
theorem store_beyondCalendar
    (hresult : (h.store now id d content name).result = .error .beyondCalendar) :
    ∃ (f : GraphFormat) (written : Disk), storedSuffix? name = some f.suffix ∧
      d.write (h.filePath id f) content = .ok written ∧
      h.store now id d content name = ⟨.error .beyondCalendar, h, written⟩ := by
  rcases h.store_cases now id d content name with
    ⟨fault, hstore⟩ | ⟨f, written, hsuffix, hwrite, hstore | ⟨expiresAt, hexpiry, hstore⟩⟩
  · rw [hstore] at hresult
    cases hresult
  · exact ⟨f, written, hsuffix, hwrite, hstore⟩
  · rw [hstore] at hresult
    unfold keep at hresult
    dsimp only at hresult
    split at hresult <;> cases hresult

namespace Housed

/-- A file that is written and then left without a record leaves the host at home. -/
theorem write {f : GraphFormat} (hhoused : h.Housed d p) (huuid : IsUuid id)
    (hwrite : d.write (h.filePath id f) content = .ok d') : h.Housed d' p := by
  obtain ⟨hfiled, hnodes⟩ := hhoused.toFiled.write huuid hwrite
  have hfile := append_suffix_not_mem_tableNames id f
  have hlast : lastName (h.filePath id f) = id ++ f.suffix := by
    rw [lastName_filePath, huuid.lastName_eq]
  have hkeeps : ∀ {path : String}, lastName path ∈ tableNames → d.KeepsFile path d' := by
    intro path hpath
    refine Disk.keepsFile_write hwrite fun hname => hfile ?_
    rwa [← hlast, hname]
  refine ⟨hfiled, ?_⟩
  rcases hhoused.table with ⟨htable, lock, hlock⟩ | ⟨hempty, hnone⟩
  · exact .inl ⟨hkeeps (by rw [lastName_tablePath]; decide) _ htable, lock,
      hkeeps (by rw [lastName_lockPath]; decide) _ hlock⟩
  · refine .inr ⟨hempty, ?_⟩
    rw [hnodes, if_neg, hnone]
    intro hname
    rw [← hname] at hfile
    exact hfile (by decide)

/-- Storing adds an upload, its record and its file, and leaves all others. -/
theorem store (hhoused : h.Housed d p) (huuid : IsUuid id) (hclock : Instant.InCalendar now)
    (hsize : content.length < 2 ^ 64)
    (hok : (h.store now id d content name).result = .ok u) :
    u.id = id ∧ u.Genuine h.directory ∧ (h.store now id d content name).host = h.withRecord u ∧
      (h.withRecord u).Housed (h.store now id d content name).disk p ∧
      ∀ other ∉ tableNames, (h.store now id d content name).disk.node? (p.child other)
        = if other = u.fileName then some (.file content) else d.node? (p.child other) := by
  rcases h.store_cases now id d content name with
    ⟨fault, hstore⟩ | ⟨f, written, -, hwrite, hstore | ⟨expiresAt, hexpiry, hstore⟩⟩
  · rw [hstore] at hok
    cases hok
  · rw [hstore] at hok
    cases hok
  rw [hstore] at hok ⊢
  obtain ⟨rfl, -⟩ := keep_ok hok
  -- a file was written at the path, so the path is one that can be opened again
  have hgenuine : (h.record now id content name f expiresAt).Genuine h.directory :=
    { uuid := huuid
      path := ⟨f, rfl⟩
      usable := by
        obtain ⟨q, htarget, -⟩ := Disk.eq_put_of_write hwrite
        exact (Disk.walk_of_target htarget).2.1
      readable := ⟨hsize, hclock, hclock.of_addDays? hexpiry⟩ }
  have hname : (h.record now id content name f expiresAt).fileName = id ++ f.suffix := by
    show lastName (h.filePath id f) = _
    rw [lastName_filePath, huuid.lastName_eq]
  obtain ⟨hfiled, hnodes⟩ := hhoused.toFiled.write huuid hwrite
  rw [← hname] at hnodes
  have hfiled' := hfiled.withRecord hgenuine ⟨content, by rw [hnodes, if_pos rfl]⟩
  obtain ⟨htakes, hhoused'⟩ := hfiled'.saveRecords (saved_of_keep hok)
  rw [keep_host, keep_disk]
  refine ⟨rfl, hgenuine, rfl, hhoused', fun other hother => ?_⟩
  rw [← hnodes]
  exact (saveRecords_ok hfiled'.opens (saved_of_keep hok)).2.2 other hother

/-! ### Opening again -/

/-- What is read from the directory of a host at home is what the host has in memory. -/
theorem loadRecords_eq (hhoused : h.Housed d p) : loadRecords d h.directory = h.records := by
  rcases hhoused.table with htable | ⟨hempty, hnone⟩
  · refine loadRecords_of_tabled htable.tabled (fun id u hu => (hhoused.genuine hu).readable)
      fun id u hu => ?_
    obtain ⟨content, hfile⟩ := hhoused.lookup_path hu
    unfold Disk.contains
    rw [hfile]
    rfl
  · rw [hempty]
    refine loadRecords_of_no_table fun node hlookup => ?_
    have hnode := (hhoused.opens.lookup_join plainName_table (Disk.usable_of_lookup hlookup)).1
      hlookup
    rw [hnone] at hnode
    cases hnode

/-- The file of a living upload is there. -/
theorem info?_eq (hhoused : h.Housed d p) (now : Instant) (id : String) :
    h.info? now d id = h.live? now id := by
  unfold info?
  cases hlive : h.live? now id with
  | none => rfl
  | some u =>
    obtain ⟨hu, -⟩ := Option.filter_eq_some_iff.1 hlive
    obtain ⟨content, hfile⟩ := hhoused.lookup_path hu
    have hthere : d.contains u.path = true := by
      unfold Disk.contains
      rw [hfile]
      rfl
    rw [Option.filter_some, if_pos hthere]

end Housed

end UploadHost

end MotifQuery
