import MotifQuery.Proofs.Host.Holding
import MotifQuery.Proofs.Json.Printer

/-!
# `MotifQuery.Proofs.Host.Shared`: several instances on one upload directory

Processes that share an upload directory each open an instance of its own. An instance reads
the table once, when it is opened, and afterwards writes the whole table from what it has in
memory. The guard of the table keeps two writes from mixing; it does not make the second
writer look at what the first one wrote.

`Run` is any interleaving of openings, uploads and clean-ups of any number of instances, each
call taken as a whole and no table failing to be written. `SharedDirectory.writer` keeps in
mind whose call changed the table last. What holds at every point of every run is
`Sound.table`: the table is that of the instance which wrote it last. So an upload that is
neither cleaned up nor expired has its entry as long as the last writer is the instance that
stored it (`lists_of_last_writer`), and not otherwise: two instances that are opened before
either stores anything lose the upload of the first one (`not_forall_stored_listed`).
-/

set_option autoImplicit false

namespace MotifQuery

open UploadHost

deriving instance DecidableEq for Disk

/-! ### Entries of a table -/

theorem Json.mem_memberDocuments {key : String} {doc : Json.Document}
    {fields : List (String × Json)} :
    (key, doc) ∈ Json.memberDocuments fields ↔ ∃ j, (key, j) ∈ fields ∧ j.document = doc := by
  induction fields with
  | nil => simp [Json.memberDocuments]
  | cons field fields ih =>
    obtain ⟨first, value⟩ := field
    rw [Json.memberDocuments, List.mem_cons, ih, Prod.mk.injEq]
    constructor
    · rintro (⟨rfl, rfl⟩ | ⟨j, hj, rfl⟩)
      · exact ⟨value, List.mem_cons_self, rfl⟩
      · exact ⟨j, List.mem_cons_of_mem _ hj, rfl⟩
    · rintro ⟨j, hj, rfl⟩
      rcases List.mem_cons.1 hj with hj | hj
      · cases hj
        exact .inl ⟨rfl, rfl⟩
      · exact .inr ⟨j, hj, rfl⟩

/-- The table in a directory has an entry for the upload. -/
def Disk.Lists (d : Disk) (directory : String) (u : UploadRecord) : Prop :=
  ∃ text members, d.readText (tablePath directory) = .ok text ∧
    Json.Document.parse? text.toList = some (.object members) ∧
    (u.id, u.toJson.document) ∈ members

/-- A table has the entries of its records and no others. -/
theorem UploadHost.Tabled.lists_iff {h : UploadHost} {d : Disk} {u : UploadRecord}
    (htable : h.Tabled d) :
    d.Lists h.directory u
      ↔ ∃ v, h.records.get? u.id = some v ∧ v.toJson.document = u.toJson.document := by
  have hread := Disk.readText_of_lookup htable
  have hparse := Json.Document.parse?_indented (Json.object (h.records.map UploadRecord.toJson))
  -- the members of the table are the records, each under its id
  have hentries (key : String) (doc : Json.Document) :
      (key, doc) ∈ Json.memberDocuments (h.records.map UploadRecord.toJson).entries
        ↔ ∃ v, h.records.get? key = some v ∧ v.toJson.document = doc := by
    simp only [Json.mem_memberDocuments, Dict.mem_entries_iff, Dict.get?_map,
      Option.map_eq_some_iff]
    constructor
    · rintro ⟨_, ⟨v, hv, rfl⟩, rfl⟩
      exact ⟨v, hv, rfl⟩
    · rintro ⟨v, hv, rfl⟩
      exact ⟨_, ⟨v, hv, rfl⟩, rfl⟩
  constructor
  · rintro ⟨text, members, htext, hmembers, hmem⟩
    rw [hread] at htext
    cases htext
    rw [Json.indented, String.toList_ofList, hparse] at hmembers
    cases hmembers
    exact (hentries _ _).1 hmem
  · intro hv
    refine ⟨_, _, hread, ?_, (hentries _ _).2 hv⟩
    rw [Json.indented, String.toList_ofList]
    exact hparse

/-! ### Calls of instances -/

/-- The instances on one upload directory, and the disk under them. -/
structure SharedDirectory where
  hosts : List UploadHost
  disk : Disk
  /-- Which instance changed the table last; none has as long as only tables were read. -/
  writer : Option Nat

/-- What happens to a shared directory. -/
inductive SharedEvent where
  | opened
  | stored (i : Nat) (u : UploadRecord)
  /-- An upload is refused. -/
  | refused (i : Nat)
  | cleaned (i : Nat) (id : String)

namespace SharedDirectory

variable {α : Type}

/-- A disk before any instance is opened. -/
def on (disk : Disk) : SharedDirectory :=
  { hosts := [], disk, writer := none }

/-- The directory with a further instance. -/
def join (S : SharedDirectory) (h : UploadHost) (disk : Disk) : SharedDirectory :=
  { S with hosts := S.hosts ++ [h], disk }

/-- The directory after a step of an instance. -/
def after (S : SharedDirectory) (i : Nat) (step : UploadStep α) : SharedDirectory :=
  let path := tablePath step.host.directory
  { hosts := S.hosts.set i step.host
    disk := step.disk
    writer := if step.disk.lookup path = S.disk.lookup path then S.writer else some i }

@[simp]
theorem hosts_after (S : SharedDirectory) (i : Nat) (step : UploadStep α) :
    (S.after i step).hosts = S.hosts.set i step.host :=
  rfl

@[simp]
theorem disk_after (S : SharedDirectory) (i : Nat) (step : UploadStep α) :
    (S.after i step).disk = step.disk :=
  rfl

/-- A step that leaves the disk alone changes its instance only. -/
theorem after_same_disk (S : SharedDirectory) (i : Nat) (result : α) (h : UploadHost) :
    S.after i ⟨result, h, S.disk⟩ = { S with hosts := S.hosts.set i h } := by
  simp [after]

/-- The instance that reads the table of a directory. -/
def reader (directory : String) (days : Nat) (d : Disk) : UploadHost :=
  { directory, days, records := loadRecords d directory }

/-- One call of an instance. An opened instance reads the table and purges, an upload gets an id
that no instance knows, and no call that changes the records fails to write the table. -/
inductive Step (directory : String) (S : SharedDirectory) (now : Instant) :
    SharedEvent → SharedDirectory → Prop
  | opened {days n : Nat} {disk : Disk} (hmake : S.disk.makeDirectories directory = .ok disk)
      (hpurge : ((reader directory days disk).purge now disk).result = .ok n) :
      Step directory S now .opened ((S.join (reader directory days disk) disk).after
        S.hosts.length ((reader directory days disk).purge now disk))
  | stored {i : Nat} {h : UploadHost} {id name : String} {content : Bytes} {u : UploadRecord}
      (hhost : S.hosts[i]? = some h) (hfresh : ∀ g ∈ S.hosts, g.Lacks id)
      (hstored : (h.store now id S.disk content name).result = .ok u) :
      Step directory S now (.stored i u) (S.after i (h.store now id S.disk content name))
  | refused {i : Nat} {h : UploadHost} {id name : String} {content : Bytes}
      (hhost : S.hosts[i]? = some h) (hfresh : h.Lacks id)
      (hsame : (h.store now id S.disk content name).host = h) :
      Step directory S now (.refused i)
        { S with disk := (h.store now id S.disk content name).disk }
  | cleaned {i : Nat} {h : UploadHost} {id : String} {found : Bool}
      (hhost : S.hosts[i]? = some h)
      (hcleaned : (h.cleanup now S.disk id).result = .ok found) :
      Step directory S now (.cleaned i id) (S.after i (h.cleanup now S.disk id))

/-- Calls of instances one after the other, in any order. -/
inductive Run (directory : String) :
    SharedDirectory → List (Instant × SharedEvent) → SharedDirectory → Prop
  | nil {S : SharedDirectory} : Run directory S [] S
  | cons {S S' S'' : SharedDirectory} {now : Instant} {event : SharedEvent}
      {log : List (Instant × SharedEvent)} (hstep : Step directory S now event S')
      (hrun : Run directory S' log S'') : Run directory S ((now, event) :: log) S''

variable {directory : String} {S S' : SharedDirectory} {now : Instant} {event : SharedEvent}
  {log : List (Instant × SharedEvent)} {u : UploadRecord} {i : Nat}

@[simp]
theorem directory_reader (directory : String) (days : Nat) (d : Disk) :
    (reader directory days d).directory = directory :=
  rfl

theorem Run.exists_of_append {before rest : List (Instant × SharedEvent)}
    (hrun : Run directory S (before ++ rest) S') :
    ∃ S₁, Run directory S before S₁ ∧ Run directory S₁ rest S' := by
  induction before generalizing S with
  | nil => exact ⟨S, .nil, hrun⟩
  | cons first before ih =>
    cases hrun with
    | cons hstep hrest =>
      obtain ⟨S₁, hbefore, hafter⟩ := ih hrest
      exact ⟨S₁, .cons hstep hbefore, hafter⟩

theorem Run.append {S'' : SharedDirectory} {rest : List (Instant × SharedEvent)}
    (hrun : Run directory S log S') (hrest : Run directory S' rest S'') :
    Run directory S (log ++ rest) S'' := by
  induction hrun with
  | nil => exact hrest
  | cons hstep hrun ih => exact .cons hstep (ih hrest)

/-- Opening makes the directory, reads the table and purges. -/
theorem ofOptions_ok {options : TemporaryOptions} {systemTemp : String} {h : UploadHost}
    {d disk : Disk} (hopen : UploadHost.ofOptions options systemTemp now d = (.ok h, disk)) :
    ∃ made n, d.makeDirectories h.directory = .ok made ∧
      ((reader h.directory options.expirationDays made).purge now made).result = .ok n ∧
      h = ((reader h.directory options.expirationDays made).purge now made).host ∧
      disk = ((reader h.directory options.expirationDays made).purge now made).disk := by
  unfold UploadHost.ofOptions at hopen
  dsimp only at hopen
  split at hopen
  · cases hopen
  · next made hmake =>
    have hreader (directory : String) (days : Nat) :
        { directory, days, records := loadRecords made directory } = reader directory days made :=
      rfl
    rw [hreader, Prod.mk.injEq] at hopen
    obtain ⟨hresult, rfl⟩ := hopen
    obtain ⟨n, hn, rfl⟩ := map_eq_ok_iff.1 hresult
    rw [directory_purge]
    exact ⟨made, n, hmake, hn, rfl, rfl⟩

/-- Opening an instance is a step. -/
theorem exists_step_of_ofOptions {options : TemporaryOptions} {systemTemp : String}
    {h : UploadHost} {disk : Disk}
    (hopen : UploadHost.ofOptions options systemTemp now S.disk = (.ok h, disk)) :
    ∃ S', Step h.directory S now .opened S' ∧ S'.hosts = S.hosts ++ [h] ∧ S'.disk = disk := by
  obtain ⟨made, n, hmake, hn, hhost, hdisk⟩ := ofOptions_ok hopen
  refine ⟨_, .opened hmake hn, ?_, hdisk.symm⟩
  rw [hosts_after, ← hhost]
  simp [join]

/-! ### The table is that of the last writer -/

/-- The instances are on the directory, and the table is that of the instance that wrote it
last. -/
structure Sound (directory : String) (S : SharedDirectory) : Prop where
  directories : ∀ h ∈ S.hosts, h.directory = directory
  table : ∀ i, S.writer = some i → ∃ h, S.hosts[i]? = some h ∧ h.Tabled S.disk

theorem sound_on (directory : String) (disk : Disk) : Sound directory (on disk) where
  directories h hmem := by simp [on] at hmem
  table i hwriter := by simp [on] at hwriter

/-- A further instance leaves the table to its writer. -/
theorem Sound.join {h : UploadHost} {disk : Disk} (hsound : Sound directory S)
    (hdirectory : h.directory = directory) (hkeeps : S.disk.KeepsFile (tablePath directory) disk) :
    Sound directory (S.join h disk) where
  directories g hmem := by
    rcases List.mem_append.1 hmem with hmem | hmem
    · exact hsound.directories g hmem
    · rw [List.mem_singleton.1 hmem]
      exact hdirectory
  table i hwriter := by
    obtain ⟨g, hg, htable⟩ := hsound.table i hwriter
    refine ⟨g, ?_, ?_⟩
    · show (S.hosts ++ [h])[i]? = some g
      rw [List.getElem?_append_left (List.getElem?_eq_some_iff.1 hg).1, hg]
    · have hg' := hsound.directories g (List.mem_of_getElem? hg)
      unfold Tabled at htable ⊢
      rw [hg'] at htable ⊢
      exact hkeeps _ htable

/-- A step that leaves the disk alone or leaves the table of its instance keeps the table that
of the last writer. -/
theorem Sound.after {α : Type} {h : UploadHost} {step : UploadStep α}
    (hsound : Sound directory S) (hhost : S.hosts[i]? = some h)
    (hdirectory : step.host.directory = h.directory)
    (heffect : (step.host = h ∧ step.disk = S.disk) ∨ step.host.Tabled step.disk) :
    Sound directory (S.after i step) where
  directories g hmem := by
    rcases List.mem_or_eq_of_mem_set hmem with hmem | rfl
    · exact hsound.directories g hmem
    · rw [hdirectory]
      exact hsound.directories h (List.mem_of_getElem? hhost)
  table j hwriter := by
    have hi : i < S.hosts.length := (List.getElem?_eq_some_iff.1 hhost).1
    have hself : (S.hosts.set i step.host)[i]? = some step.host := List.getElem?_set_self hi
    have hat : step.host.directory = directory := by
      rw [hdirectory]
      exact hsound.directories h (List.mem_of_getElem? hhost)
    change (if step.disk.lookup (tablePath step.host.directory)
      = S.disk.lookup (tablePath step.host.directory) then S.writer else some i) = some j at hwriter
    show ∃ g, (S.hosts.set i step.host)[j]? = some g ∧ g.Tabled step.disk
    split at hwriter
    · next hsame =>
      -- the table is as before, so whoever wrote it keeps it
      obtain ⟨g, hg, htable⟩ := hsound.table j hwriter
      by_cases hij : i = j
      · subst hij
        refine ⟨step.host, hself, ?_⟩
        rcases heffect with ⟨heq, hdisk⟩ | htabled
        · rw [hhost] at hg
          cases hg
          rw [heq, hdisk]
          exact htable
        · exact htabled
      · refine ⟨g, by rw [List.getElem?_set_ne hij, hg], ?_⟩
        have hg' := hsound.directories g (List.mem_of_getElem? hg)
        unfold Tabled at htable ⊢
        rw [hg', ← hat] at htable ⊢
        rw [hsame, htable]
    · next hchanged =>
      obtain rfl := Option.some.inj hwriter
      refine ⟨step.host, hself, ?_⟩
      rcases heffect with ⟨-, hdisk⟩ | htabled
      · rw [hdisk] at hchanged
        exact absurd rfl hchanged
      · exact htabled

theorem Sound.step (hsound : Sound directory S) (hstep : Step directory S now event S') :
    Sound directory S' := by
  cases hstep with
  | @opened days n disk hmake hpurge =>
    have hreader : (reader directory days disk).directory = directory := rfl
    -- a new instance reads the table, and writes it only when a purge drops something
    have hjoin := hsound.join hreader (Disk.keepsFile_makeDirectories hmake)
    refine hjoin.after (h := reader directory days disk) ?_ (directory_purge _ _ _)
      (purge_cases hpurge)
    exact List.getElem?_concat_length
  | stored hhost hfresh hstored =>
    obtain ⟨f, written, expiresAt, -, -, -, -, hhost', -, htable⟩ := store_ok hstored
    refine hsound.after hhost ?_ (.inr ?_)
    · rw [hhost']
      rfl
    · rw [hhost']
      exact htable
  | @refused j h id name content hhost hfresh hsame =>
    refine ⟨hsound.directories, fun j hwriter => ?_⟩
    -- a refused upload may leave a file, but never under the name of the table
    obtain ⟨g, hg, htable⟩ := hsound.table j hwriter
    refine ⟨g, hg, hfresh.keepsFile_store hsame (fun f hname => ?_) _ htable⟩
    rw [lastName_tablePath] at hname
    have hnot := append_suffix_not_mem_tableNames (lastName id) f
    rw [hname] at hnot
    simp [tableNames] at hnot
  | cleaned hhost hcleaned =>
    exact hsound.after hhost (directory_cleanup _ _ _ _) (cleanup_ok hcleaned)

theorem Sound.run (hsound : Sound directory S) (hrun : Run directory S log S') :
    Sound directory S' := by
  induction hrun with
  | nil => exact hsound
  | cons hstep hrun ih => exact ih (hsound.step hstep)

/-! ### Uploads of one instance -/

/-- The instance with a number holds the upload. -/
def HeldBy (S : SharedDirectory) (i : Nat) (u : UploadRecord) : Prop :=
  ∃ h, S.hosts[i]? = some h ∧ h.Holds u

/-- A step of an instance leaves the uploads of the others, and its own where the step does. -/
theorem HeldBy.after {α : Type} {j : Nat} {step : UploadStep α} (hheld : S.HeldBy i u)
    (hstep : ∀ h, j = i → S.hosts[i]? = some h → h.Holds u → step.host.Holds u) :
    (S.after j step).HeldBy i u := by
  obtain ⟨h, hhost, hholds⟩ := hheld
  by_cases hij : j = i
  · subst hij
    have hj : j < S.hosts.length := (List.getElem?_eq_some_iff.1 hhost).1
    exact ⟨step.host, List.getElem?_set_self hj, hstep h rfl hhost hholds⟩
  · exact ⟨h, (List.getElem?_set_ne hij).trans hhost, hholds⟩

/-- An instance keeps its upload until it cleans it up or the upload expires, whatever the
other instances do. -/
theorem HeldBy.step (hheld : S.HeldBy i u) (hstep : Step directory S now event S')
    (hkept : event ≠ .cleaned i u.id) (hlive : now < u.expiresAt) : S'.HeldBy i u := by
  have hlive' := UploadRecord.isExpiredAt_eq_false hlive
  cases hstep with
  | @opened days n disk hmake hpurge =>
    obtain ⟨h, hhost, hholds⟩ := hheld
    have hi := (List.getElem?_eq_some_iff.1 hhost).1
    have hjoined : (S.join (reader directory days disk) disk).HeldBy i u :=
      ⟨h, (List.getElem?_append_left hi).trans hhost, hholds⟩
    exact hjoined.after fun g hi' => by omega
  | @stored j h id name content v hhost hfresh hstored =>
    refine hheld.after fun g hj hg hholds => ?_
    -- another id, because a fresh one is in no records
    subst hj
    rw [hhost] at hg
    cases hg
    refine hholds.store fun hid => ?_
    have hlacks := hfresh h (List.mem_of_getElem? hhost)
    exact (hlacks _ (Dict.mem_entries_iff.2 hholds.stored)).1 hid.symm
  | refused hhost hfresh hsame => exact hheld
  | @cleaned j h id found hhost hcleaned =>
    refine hheld.after fun g hj hg hholds => ?_
    subst hj
    rw [hhost] at hg
    cases hg
    exact hholds.cleanup hlive' fun hid => hkept (by rw [hid])

theorem HeldBy.run (hheld : S.HeldBy i u) (hrun : Run directory S log S')
    (hkept : ∀ entry ∈ log, entry.2 ≠ .cleaned i u.id)
    (hlive : ∀ entry ∈ log, entry.1 < u.expiresAt) : S'.HeldBy i u := by
  induction hrun with
  | nil => exact hheld
  | cons hstep hrun ih =>
    exact ih (hheld.step hstep (hkept _ List.mem_cons_self) (hlive _ List.mem_cons_self))
      (fun entry hentry => hkept entry (List.mem_cons_of_mem _ hentry))
      (fun entry hentry => hlive entry (List.mem_cons_of_mem _ hentry))

/-- An instance holds what it stores. -/
theorem heldBy_of_stored (hstep : Step directory S now (.stored i u) S') : S'.HeldBy i u := by
  cases hstep with
  | @stored _ h id name content _ hhost hfresh hstored =>
    obtain ⟨f, written, expiresAt, -, -, -, hu, hhost', -, -⟩ := store_ok hstored
    have hi : i < S.hosts.length := (List.getElem?_eq_some_iff.1 hhost).1
    refine ⟨_, List.getElem?_set_self hi, ?_⟩
    rw [hhost']
    have hid : u.id = id := by
      rw [hu]
      rfl
    apply Lacks.holds_withRecord
    rw [hid]
    exact hfresh h (List.mem_of_getElem? hhost)

/-! ### Two instances on an empty directory -/

/-- The upload directory of the runs below. -/
def commonPath : String := "motifstudio_uploads"

/-- The disk with an upload directory without files. -/
def bare : Disk :=
  { nodes := .ofList [(commonPath, .directory)] }

/-- An instance without uploads. -/
def idle : UploadHost :=
  { directory := commonPath, days := 14 }

theorem purge_idle (now : Instant) (d : Disk) : idle.purge now d = ⟨.ok 0, idle, d⟩ :=
  rfl

theorem cleanup_idle (now : Instant) (d : Disk) (id : String) :
    idle.cleanup now d id = ⟨.ok false, idle, d⟩ :=
  rfl

theorem reader_bare : reader commonPath 14 bare = idle := by
  decide +kernel

/-- An instance that is opened on a directory without files has no uploads and leaves the disk
as it is. -/
theorem step_opened_bare {S : SharedDirectory}
    (hmake : S.disk.makeDirectories commonPath = .ok bare) :
    Step commonPath S now .opened { S with hosts := S.hosts ++ [idle], disk := bare } := by
  have hstep := @Step.opened commonPath S now 14 0 bare hmake (by rw [reader_bare, purge_idle])
  rw [reader_bare, purge_idle] at hstep
  simpa [after, join] using hstep

/-- Two instances are opened on a disk without files. -/
theorem run_two_opened : Run commonPath (on .empty) [(0, .opened), (0, .opened)]
    { hosts := [idle, idle], disk := bare, writer := none } :=
  .cons (step_opened_bare (by decide +kernel)) (.cons (step_opened_bare (by decide +kernel)) .nil)

/-- What the first of two instances stores. -/
def firstStep : UploadStep (Except UploadFault UploadRecord) :=
  idle.store 1 "a" bare [0x73] "x.csv"

/-- The directory after the first of two instances has stored an upload. -/
def oneStored : SharedDirectory :=
  { hosts := [firstStep.host, idle], disk := firstStep.disk, writer := some 0 }

/-- The first of two instances stores an upload. -/
theorem exists_step_stored : ∃ u, u.id = "a" ∧ 3 < u.expiresAt ∧
    Step commonPath { hosts := [idle, idle], disk := bare, writer := none } 1 (.stored 0 u)
      oneStored := by
  obtain ⟨u, hu, htest⟩ : ∃ u, firstStep.result = .ok u ∧ decide (3 < u.expiresAt) = true :=
    exists_of_any_toOption (by decide +kernel)
  have hid : u.id = "a" := id_of_store hu
  refine ⟨u, hid, of_decide_eq_true htest, ?_⟩
  have hstep := @Step.stored commonPath { hosts := [idle, idle], disk := bare, writer := none } 1
    0 idle "a" "x.csv" [0x73] u rfl (by decide) hu
  have hafter : after { hosts := [idle, idle], disk := bare, writer := none } 0 firstStep
      = oneStored := by
    have hchanged : firstStep.disk.lookup (tablePath firstStep.host.directory)
        ≠ bare.lookup (tablePath firstStep.host.directory) := by decide +kernel
    unfold after oneStored
    dsimp only
    rw [if_neg hchanged]
    rfl
  rw [← hafter]
  exact hstep

/-! ### Entries of stored uploads -/

/-- At every point of every run, an upload that its instance has not cleaned up and that has
not expired has its entry in the table, as long as the instance that stored it is the one that
changed the table last. -/
theorem lists_of_last_writer {disk : Disk} {before later : List (Instant × SharedEvent)}
    (hrun : Run directory (on disk) (before ++ (now, .stored i u) :: later) S)
    (hkept : ∀ entry ∈ later, entry.2 ≠ .cleaned i u.id)
    (hlive : ∀ entry ∈ later, entry.1 < u.expiresAt) (hwriter : S.writer = some i) :
    S.disk.Lists directory u := by
  obtain ⟨S₁, hbefore, hrest⟩ := hrun.exists_of_append
  cases hrest with
  | cons hstored hlater =>
    obtain ⟨h, hhost, hholds⟩ := (heldBy_of_stored hstored).run hlater hkept hlive
    have hsound := (sound_on directory disk).run hrun
    obtain ⟨g, hg, htable⟩ := hsound.table i hwriter
    rw [hhost] at hg
    cases hg
    rw [← hsound.directories h (List.mem_of_getElem? hhost)]
    exact htable.lists_iff.2 ⟨u, hholds.stored, rfl⟩

/-- The second of two instances tries to clean up the upload of the first one, which it does not
know; the entry stays. -/
theorem lists_of_cleaned_elsewhere : ∃ (S : SharedDirectory) (u : UploadRecord), u.id = "a" ∧
    Run commonPath (on .empty)
      ([(0, .opened), (0, .opened)] ++ (1, .stored 0 u) :: [(2, .cleaned 1 "a")]) S ∧
    S.disk.Lists commonPath u := by
  obtain ⟨u, hid, hlive, hfirst⟩ := exists_step_stored
  have hsecond := @Step.cleaned commonPath oneStored 2 1 idle "a" false rfl
    (by rw [cleanup_idle])
  rw [cleanup_idle, after_same_disk] at hsecond
  have hrun := run_two_opened.append (.cons hfirst (.cons hsecond .nil))
  refine ⟨_, u, hid, hrun, lists_of_last_writer hrun ?_ ?_ ?_⟩
  · simp
  · simpa using Int.lt_trans (by decide) hlive
  · rfl

/-- Two instances are opened on a disk without files and each stores an upload: the first
upload has no entry in the table afterwards, though nothing is cleaned up and nothing
expires. -/
theorem not_forall_stored_listed :
    ¬ ∀ (directory : String) (disk : Disk) (log : List (Instant × SharedEvent))
      (S : SharedDirectory) (now : Instant) (i : Nat) (u : UploadRecord),
      Run directory (on disk) log S → (now, .stored i u) ∈ log →
      (∀ entry ∈ log, ∀ j, entry.2 ≠ .cleaned j u.id) →
      (∀ entry ∈ log, entry.1 < u.expiresAt) → S.disk.Lists directory u := by
  intro hall
  obtain ⟨u, hid, hlive, hfirst⟩ := exists_step_stored
  have htest : (idle.store 2 "b" oneStored.disk [0x73] "y.csv").result.toOption.any
      (fun _ => true) = true := by decide +kernel
  obtain ⟨v, hv, -⟩ := exists_of_any_toOption htest
  have hsecond := @Step.stored commonPath oneStored 2 1 idle "b" "y.csv" [0x73] v rfl
    (by decide +kernel) hv
  obtain ⟨f, written, expiresAt, -, -, -, -, -, -, htable⟩ := store_ok hv
  have hrun := run_two_opened.append (.cons hfirst (.cons hsecond .nil))
  have hlists := hall commonPath .empty _ _ 1 0 u hrun (by simp) (by simp) fun entry hentry => by
    have hnow : entry.1 ≤ 2 := by
      revert entry
      simp
    exact Int.lt_trans (Int.lt_of_le_of_lt hnow (by decide)) hlive
  rw [disk_after] at hlists
  -- the second instance knows nothing of the first upload
  obtain ⟨w, hw, -⟩ := htable.lists_iff.1 hlists
  rw [hid] at hw
  change (idle.records.insert v.id v).get? "a" = some w at hw
  rw [id_of_store hv] at hw
  cases hw

end SharedDirectory

end MotifQuery
