import MotifQuery.Proofs.Host.Housed
import MotifQuery.Proofs.Host.Shared

/-!
# `MotifQuery.Proofs.Host.Restart`: an upload directory that is opened again

A process that ends leaves the directory of its upload host; another one opens it later and has
nothing but the table and the files. `UploadHost.Run` is a run of uploads, clean-ups and purges
of one host in which no operation on the disk fails, and the log of the run says what was asked
for. What holds at every point of every run is `UploadHost.Sound`: the host is at home in the
directory, its records are the outstanding uploads of the log except for expired ones, and the
other files are those of the uploads whose expiry is beyond the calendar, since such an upload
is given up when its file is written already.

So the host that is opened later answers as the old one would (`restart_transparent`), and the
files left in the directory are those of the uploads that are neither cleaned up nor expired,
and those given up: `not_forall_files_of_uploads` shows one of the latter.
-/

set_option autoImplicit false

namespace MotifQuery

/-- What happens to an upload host. -/
inductive UploadEvent where
  | stored (u : UploadRecord) (content : Bytes)
  /-- The file of an upload is written, and then its expiry is beyond the calendar. -/
  | stranded (id : String) (f : GraphFormat) (content : Bytes)
  | refused
  | cleaned (id : String)
  | purged

/-- The id that is given out. -/
def UploadEvent.issued? : UploadEvent → Option String
  | stored u _ => some u.id
  | stranded id _ _ => some id
  | refused | cleaned _ | purged => none

/-- What happens to an upload host, and when. -/
abbrev UploadLog := List (Instant × UploadEvent)

namespace UploadLog

variable {log : UploadLog} {now : Instant} {event : UploadEvent} {u : UploadRecord}
  {content : Bytes}

/-- The upload is stored, and not cleaned up afterwards. -/
def Outstanding (log : UploadLog) (u : UploadRecord) (content : Bytes) : Prop :=
  ∃ before later now, log = before ++ (now, .stored u content) :: later ∧
    ∀ entry ∈ later, entry.2 ≠ .cleaned u.id

/-- The file of an upload that was given up because its expiry is beyond the calendar. -/
def Stranded (log : UploadLog) (name : String) (content : Bytes) : Prop :=
  ∃ now id f, (now, .stranded id f content) ∈ log ∧ name = id ++ f.suffix

/-- What the surroundings of a host see to: each upload gets an id of its own, a UUID; the clock
stays within the calendar, and the size of an upload within 64 bits. -/
structure Regular (log : UploadLog) : Prop where
  ids : log.Pairwise fun a b => ∀ id, a.2.issued? = some id → b.2.issued? ≠ some id
  uuid : ∀ entry ∈ log, ∀ id, entry.2.issued? = some id → IsUuid id
  clock : ∀ entry ∈ log, Instant.InCalendar entry.1
  size : ∀ entry ∈ log, ∀ u content, entry.2 = .stored u content → content.length < 2 ^ 64

theorem Regular.of_concat (h : Regular (log ++ [(now, event)])) :
    Regular log ∧ (∀ entry ∈ log, ∀ id, event.issued? = some id → entry.2.issued? ≠ some id) ∧
      (∀ id, event.issued? = some id → IsUuid id) ∧ Instant.InCalendar now := by
  have hlast : (now, event) ∈ log ++ [(now, event)] := by simp
  have hfront : ∀ entry ∈ log, entry ∈ log ++ [(now, event)] := fun _ => List.mem_append_left _
  obtain ⟨hids, -, hfresh⟩ := List.pairwise_append.1 h.ids
  refine ⟨⟨hids, fun entry hentry => h.uuid entry (hfront entry hentry),
      fun entry hentry => h.clock entry (hfront entry hentry),
      fun entry hentry => h.size entry (hfront entry hentry)⟩,
    fun entry hentry id hid hold => ?_, h.uuid _ hlast, h.clock _ hlast⟩
  exact hfresh entry hentry _ (List.mem_singleton_self _) id hold hid

theorem outstanding_concat_iff :
    Outstanding (log ++ [(now, event)]) u content ↔
      event = .stored u content ∨ (Outstanding log u content ∧ event ≠ .cleaned u.id) := by
  constructor
  · rintro ⟨before, later, time, hlog, hkept⟩
    -- the upload is the last event, or it came before and the last event keeps it
    rcases List.eq_nil_or_concat later with rfl | ⟨later, last, rfl⟩
    · obtain ⟨-, hlast⟩ := List.append_inj' hlog rfl
      cases hlast
      exact .inl rfl
    · rw [List.concat_eq_append, ← List.cons_append, ← List.append_assoc] at hlog
      obtain ⟨hfront, hlast⟩ := List.append_inj' hlog rfl
      cases hlast
      refine .inr ⟨⟨before, later, time, hfront, fun entry hentry => ?_⟩, ?_⟩
      · exact hkept entry (by simp [hentry])
      · exact hkept (now, event) (by simp)
  · rintro (rfl | ⟨⟨before, later, time, rfl, hkept⟩, hevent⟩)
    · exact ⟨log, [], now, rfl, fun _ hentry => absurd hentry List.not_mem_nil⟩
    · refine ⟨before, later ++ [(now, event)], time, by simp, fun entry hentry => ?_⟩
      rcases List.mem_append.1 hentry with hentry | hentry
      · exact hkept entry hentry
      · rw [List.mem_singleton.1 hentry]
        exact hevent

theorem Outstanding.exists_mem (h : log.Outstanding u content) :
    ∃ time, (time, .stored u content) ∈ log := by
  obtain ⟨before, later, time, rfl, -⟩ := h
  exact ⟨time, by simp⟩

/-- The id of an upload is not that of one that was given up. -/
theorem Regular.id_ne {id : String} {f : GraphFormat} {other : Bytes} (h : Regular log)
    (hout : log.Outstanding u content) {time : Instant}
    (hstranded : (time, .stranded id f other) ∈ log) : u.id ≠ id := by
  obtain ⟨stored, hstored⟩ := hout.exists_mem
  intro hid
  have : Std.Symm fun a b : Instant × UploadEvent =>
      ∀ id, a.2.issued? = some id → b.2.issued? ≠ some id :=
    ⟨fun a b hab id hb ha => hab id ha hb⟩
  exact h.ids.forall hstored hstranded (by simp) u.id rfl (congrArg some hid.symm)

theorem stranded_concat_iff {name : String} :
    Stranded (log ++ [(now, event)]) name content ↔
      (∃ id f, event = .stranded id f content ∧ name = id ++ f.suffix) ∨
        Stranded log name content := by
  constructor
  · rintro ⟨time, id, f, hmem, hname⟩
    rcases List.mem_append.1 hmem with hmem | hmem
    · exact .inr ⟨time, id, f, hmem, hname⟩
    · cases List.mem_singleton.1 hmem
      exact .inl ⟨id, f, rfl, hname⟩
  · rintro (⟨id, f, rfl, hname⟩ | ⟨time, id, f, hmem, hname⟩)
    · exact ⟨now, id, f, by simp, hname⟩
    · exact ⟨time, id, f, List.mem_append_left _ hmem, hname⟩

/-- An event that gives out no id adds no upload. -/
theorem outstanding_concat_of_none (h : event.issued? = none) :
    Outstanding (log ++ [(now, event)]) u content ↔
      Outstanding log u content ∧ event ≠ .cleaned u.id := by
  rw [outstanding_concat_iff]
  refine or_iff_right fun hstored => ?_
  rw [hstored] at h
  cases h

/-- An event that gives out no id gives up no upload. -/
theorem stranded_concat_of_none {name : String} (h : event.issued? = none) :
    Stranded (log ++ [(now, event)]) name content ↔ Stranded log name content := by
  rw [stranded_concat_iff]
  refine or_iff_right ?_
  rintro ⟨id, f, rfl, -⟩
  cases h

end UploadLog

namespace UploadHost

open UploadLog

variable {h h' h₀ : UploadHost} {d d' d₀ : Disk} {p : DiskPlace} {log : UploadLog}
  {now : Instant} {event : UploadEvent} {u : UploadRecord} {content : Bytes} {name : String}

/-! ### Runs of one host -/

/-- One operation of a host in which nothing fails on the disk. An upload may be refused without
a trace, or given up when its file is written already. -/
inductive Step (h : UploadHost) (d : Disk) (now : Instant) :
    UploadEvent → UploadHost → Disk → Prop
  | stored {id name : String} {content : Bytes} {u : UploadRecord}
      (hok : (h.store now id d content name).result = .ok u) :
      Step h d now (.stored u content) (h.store now id d content name).host
        (h.store now id d content name).disk
  | stranded {id name : String} {content : Bytes} {f : GraphFormat}
      (hsuffix : storedSuffix? name = some f.suffix)
      (hbeyond : (h.store now id d content name).result = .error .beyondCalendar) :
      Step h d now (.stranded id f content) (h.store now id d content name).host
        (h.store now id d content name).disk
  | refused {id name : String} {content : Bytes} {fault : Failure}
      (hrefused : h.store now id d content name = ⟨.error (.refused fault), h, d⟩) :
      Step h d now .refused h d
  | cleaned {id : String} {found : Bool} (hok : (h.cleanup now d id).result = .ok found) :
      Step h d now (.cleaned id) (h.cleanup now d id).host (h.cleanup now d id).disk
  | purged {n : Nat} (hok : (h.purge now d).result = .ok n) :
      Step h d now .purged (h.purge now d).host (h.purge now d).disk

/-- Operations of a host one after the other, with their log. -/
inductive Run (h₀ : UploadHost) (d₀ : Disk) : UploadLog → UploadHost → Disk → Prop
  | start : Run h₀ d₀ [] h₀ d₀
  | next {log : UploadLog} {h h' : UploadHost} {d d' : Disk} {now : Instant} {event : UploadEvent}
      (hrun : Run h₀ d₀ log h d) (hstep : Step h d now event h' d') :
      Run h₀ d₀ (log ++ [(now, event)]) h' d'

/-! ### What holds along a run -/

/-- The directory has the file: it is that of a record, or of an upload that was given up. -/
def Left (log : UploadLog) (h : UploadHost) (name : String) (content : Bytes) : Prop :=
  (∃ u, h.records.get? u.id = some u ∧ log.Outstanding u content ∧ name = u.fileName) ∨
    log.Stranded name content

/-- The host is at home in the directory. Its records are the outstanding uploads of the log,
without some that are expired, and there are no files but theirs and those given up. -/
structure Sound (log : UploadLog) (h : UploadHost) (d : Disk) (p : DiskPlace) : Prop where
  housed : h.Housed d p
  stored : ∀ {u}, h.records.get? u.id = some u → ∃ content, log.Outstanding u content
  kept : ∀ {u content}, log.Outstanding u content →
    h.records.get? u.id = some u ∨ ∃ entry ∈ log, u.expiresAt ≤ entry.1
  files : ∀ name ∉ tableNames, name ≠ "" ∧ '/' ∉ name.toList → ∀ node,
    d.node? (p.child name) = some node ↔ ∃ content, node = .file content ∧ Left log h name content

namespace Sound

/-- What is left goes by an id that was given out. -/
theorem exists_issued (hsound : Sound log h d p) (hleft : Left log h name content) :
    ∃ entry ∈ log, ∃ (id : String) (f : GraphFormat),
      entry.2.issued? = some id ∧ name = id ++ f.suffix := by
  rcases hleft with ⟨u, hu, hout, rfl⟩ | ⟨time, id, f, hmem, rfl⟩
  · obtain ⟨f, hname⟩ := (hsound.housed.genuine hu).exists_fileName_eq
    obtain ⟨time, hmem⟩ := hout.exists_mem
    exact ⟨_, hmem, u.id, f, rfl, hname⟩
  · exact ⟨_, hmem, id, f, rfl, rfl⟩

/-- A file under a new id is a further one. -/
theorem files_of_write {f : GraphFormat} {id : String} (hsound : Sound log h d p)
    (hfresh : ∀ entry ∈ log, entry.2.issued? ≠ some id)
    (hnodes : ∀ name ∉ tableNames, d'.node? (p.child name)
      = if name = id ++ f.suffix then some (.file content) else d.node? (p.child name))
    (hleft : ∀ name content', Left (log ++ [(now, event)]) h' name content' ↔
      (name = id ++ f.suffix ∧ content' = content) ∨ Left log h name content') :
    ∀ name ∉ tableNames, name ≠ "" ∧ '/' ∉ name.toList → ∀ node,
      d'.node? (p.child name) = some node ↔
        ∃ content, node = .file content ∧ Left (log ++ [(now, event)]) h' name content := by
  intro name hname hplain node
  rw [hnodes name hname]
  simp only [hleft]
  split
  · next hnew =>
    subst hnew
    -- a file that was left under this name would go by an id that is given out twice
    have hnone : ∀ content', ¬ Left log h (id ++ f.suffix) content' := by
      intro content' hold
      obtain ⟨entry, hentry, other, g, hissued, hname⟩ := hsound.exists_issued hold
      rw [← GraphFormat.append_suffix_inj hname] at hissued
      exact hfresh entry hentry hissued
    simpa [hnone] using eq_comm
  · next hold =>
    rw [hsound.files name hname hplain]
    simp [hold]

/-- Taking uploads that are cleaned up or expired leaves a sound host. -/
theorem take {P : UploadRecord → Prop} (hsound : Sound log h d p)
    (hregular : Regular log) (htakes : Takes P p h d h' d') (hhoused : h'.Housed d' p)
    (hissued : event.issued? = none) (hcleaned : ∀ u, event = .cleaned u.id → P u)
    (hP : ∀ u, P u → event = .cleaned u.id ∨ u.expiresAt ≤ now) :
    Sound (log ++ [(now, event)]) h' d' p := by
  have hout : ∀ u content, Outstanding (log ++ [(now, event)]) u content ↔
      Outstanding log u content ∧ event ≠ .cleaned u.id :=
    fun _ _ => outstanding_concat_of_none hissued
  refine ⟨hhoused, fun {u} hu => ?_, fun {u content} hu => ?_, fun name hname hplain node => ?_⟩
  -- a record that stays was not cleaned up, and one that goes was, or is expired by now
  · obtain ⟨hold, hnot⟩ := (htakes.records _ _).1 hu
    obtain ⟨content, hcontent⟩ := hsound.stored hold
    exact ⟨content, (hout u content).2 ⟨hcontent, fun hevent => hnot (hcleaned u hevent)⟩⟩
  · obtain ⟨hold, hevent⟩ := (hout u content).1 hu
    rcases hsound.kept hold with hget | ⟨entry, hentry, hexpired⟩
    · by_cases hPu : P u
      · exact .inr ⟨(now, event), by simp, (hP u hPu).resolve_left hevent⟩
      · exact .inl ((htakes.records _ _).2 ⟨hget, hPu⟩)
    · exact .inr ⟨entry, List.mem_append_left _ hentry, hexpired⟩
  · rw [htakes.nodes name hname, hsound.files name hname hplain]
    constructor
    · rintro ⟨⟨content, hnode, ⟨u, hu, hcontent, hfile⟩ | hold⟩, hall⟩
      · have hnot := hall u hu hfile.symm
        exact ⟨content, hnode, .inl ⟨u, (htakes.records _ _).2 ⟨hu, hnot⟩,
          (hout u content).2 ⟨hcontent, fun hevent => hnot (hcleaned u hevent)⟩, hfile⟩⟩
      · exact ⟨content, hnode, .inr ((stranded_concat_of_none hissued).2 hold)⟩
    · rintro ⟨content, hnode, ⟨u, hu, hcontent, hfile⟩ | hnew⟩
      · obtain ⟨hold, hnot⟩ := (htakes.records _ _).1 hu
        refine ⟨⟨content, hnode, .inl ⟨u, hold, ((hout u content).1 hcontent).1, hfile⟩⟩,
          fun v hv hvfile => ?_⟩
        rwa [hsound.housed.eq_of_fileName hv hold (hvfile.trans hfile)]
      · -- no record goes by the id of an upload that was given up, so its file is not taken
        obtain ⟨time, id, f, hmem, rfl⟩ := (stranded_concat_of_none hissued).1 hnew
        refine ⟨⟨content, hnode, .inr ⟨time, id, f, hmem, rfl⟩⟩, fun v hv hvfile => ?_⟩
        obtain ⟨content', hout⟩ := hsound.stored hv
        obtain ⟨g, hg⟩ := (hsound.housed.genuine hv).exists_fileName_eq
        exact absurd (GraphFormat.append_suffix_inj (hg.symm.trans hvfile))
          (hregular.id_ne hout hmem)

/-- An upload that is stored under a new id adds its file to what is left. -/
theorem left_stored_iff (hnew : ∀ v content', log.Outstanding v content' → v.id ≠ u.id)
    (content' : Bytes) :
    Left (log ++ [(now, .stored u content)]) (h.withRecord u) name content' ↔
      (name = u.fileName ∧ content' = content) ∨ Left log h name content' := by
  -- for every other upload the new event says nothing
  have hkept : ∀ {v : UploadRecord}, v.id ≠ u.id →
      (Outstanding (log ++ [(now, .stored u content)]) v content' ↔
        log.Outstanding v content') := by
    intro v hv
    rw [outstanding_concat_iff]
    refine (or_iff_right fun hstored => hv ?_).trans (and_iff_left nofun)
    cases hstored
    rfl
  have hself : Outstanding (log ++ [(now, .stored u content)]) u content' ↔ content' = content := by
    rw [outstanding_concat_iff]
    refine (or_iff_left fun hold => hnew u content' hold.1 rfl).trans
      ⟨fun h => ?_, fun h => h ▸ rfl⟩
    cases h
    rfl
  have hstranded : Stranded (log ++ [(now, .stored u content)]) name content' ↔
      Stranded log name content' := by
    rw [stranded_concat_iff]
    exact or_iff_right fun ⟨_, _, hevent, _⟩ => nomatch hevent
  unfold Left
  rw [hstranded, ← or_assoc]
  refine or_congr_left ⟨?_, ?_⟩
  · rintro ⟨v, hv, hout, hname⟩
    rw [get?_withRecord] at hv
    split at hv
    · cases hv
      exact .inl ⟨hname, hself.1 hout⟩
    · next hid => exact .inr ⟨v, hv, (hkept hid).1 hout, hname⟩
  · rintro (⟨hname, hcontent⟩ | ⟨v, hv, hout, hname⟩)
    · exact ⟨u, by rw [get?_withRecord, if_pos rfl], hself.2 hcontent, hname⟩
    · have hid := hnew v content' hout
      exact ⟨v, by rw [get?_withRecord, if_neg hid]; exact hv, (hkept hid).2 hout, hname⟩

/-- An upload that is given up adds its file to what is left. -/
theorem left_stranded_iff {f : GraphFormat} {id : String} (content' : Bytes) :
    Left (log ++ [(now, .stranded id f content)]) h name content' ↔
      (name = id ++ f.suffix ∧ content' = content) ∨ Left log h name content' := by
  have hkept : ∀ v : UploadRecord, Outstanding (log ++ [(now, .stranded id f content)]) v content' ↔
      log.Outstanding v content' := by
    intro v
    rw [outstanding_concat_iff]
    exact (or_iff_right nofun).trans (and_iff_left nofun)
  unfold Left
  rw [stranded_concat_iff, or_left_comm]
  simp only [hkept]
  refine or_congr_left ⟨?_, ?_⟩
  · rintro ⟨id, f, hevent, hname⟩
    cases hevent
    exact ⟨hname, rfl⟩
  · rintro ⟨hname, rfl⟩
    exact ⟨id, f, rfl, hname⟩

/-- Storing an upload under a new id leaves a sound host. -/
theorem step_stored {id name : String} (hsound : Sound log h d p)
    (hregular : Regular (log ++ [(now, .stored u content)]))
    (hok : (h.store now id d content name).result = .ok u) :
    Sound (log ++ [(now, .stored u content)]) (h.store now id d content name).host
      (h.store now id d content name).disk p := by
  obtain ⟨-, hfresh, huuid, hclock⟩ := hregular.of_concat
  have hsize := hregular.size (now, .stored u content) (by simp) u content rfl
  obtain ⟨rfl, hgenuine, hhost, hhoused, hnodes⟩ :=
    hsound.housed.store (id_of_store hok ▸ huuid u.id rfl) hclock hsize hok
  obtain ⟨f, hname⟩ := hgenuine.exists_fileName_eq
  have hfresh' : ∀ entry ∈ log, entry.2.issued? ≠ some u.id :=
    fun entry hentry => hfresh entry hentry u.id rfl
  have hnew : ∀ v content', log.Outstanding v content' → v.id ≠ u.id := by
    intro v content' hout hid
    obtain ⟨time, hmem⟩ := hout.exists_mem
    exact hfresh' _ hmem (congrArg some hid)
  rw [hhost]
  refine ⟨hhoused, fun {v} hv => ?_, fun {v content'} hv => ?_, ?_⟩
  · rw [get?_withRecord] at hv
    split at hv
    · cases hv
      exact ⟨content, outstanding_concat_iff.2 (.inl rfl)⟩
    · obtain ⟨content', hout⟩ := hsound.stored hv
      exact ⟨content', outstanding_concat_iff.2 (.inr ⟨hout, nofun⟩)⟩
  · rcases outstanding_concat_iff.1 hv with hevent | ⟨hout, -⟩
    · cases hevent
      exact .inl (by rw [get?_withRecord, if_pos rfl])
    · rw [get?_withRecord, if_neg (hnew v content' hout)]
      exact (hsound.kept hout).imp_right fun ⟨entry, hentry, hexpired⟩ =>
        ⟨entry, List.mem_append_left _ hentry, hexpired⟩
  · rw [hname] at hnodes
    refine hsound.files_of_write hfresh' hnodes fun name content' => ?_
    rw [← hname]
    exact left_stored_iff hnew content'

/-- Giving up an upload beyond the calendar leaves a sound host, with the file among those that
are given up. -/
theorem step_stranded {id name : String} {f : GraphFormat} (hsound : Sound log h d p)
    (hregular : Regular (log ++ [(now, .stranded id f content)]))
    (hsuffix : storedSuffix? name = some f.suffix)
    (hbeyond : (h.store now id d content name).result = .error .beyondCalendar) :
    Sound (log ++ [(now, .stranded id f content)]) (h.store now id d content name).host
      (h.store now id d content name).disk p := by
  obtain ⟨-, hfresh, huuid, -⟩ := hregular.of_concat
  obtain ⟨g, written, hsuffix', hwrite, hstore⟩ := store_beyondCalendar hbeyond
  have hfg : g.suffix = f.suffix := Option.some.inj (hsuffix'.symm.trans hsuffix)
  have hid : IsUuid id := huuid id rfl
  rw [hstore]
  refine ⟨hsound.housed.write hid hwrite, fun {v} hv => ?_, fun {v content'} hv => ?_, ?_⟩
  · obtain ⟨content', hout⟩ := hsound.stored hv
    exact ⟨content', outstanding_concat_iff.2 (.inr ⟨hout, nofun⟩)⟩
  · have hout := (outstanding_concat_iff.1 hv).resolve_left nofun
    exact (hsound.kept hout.1).imp_right fun ⟨entry, hentry, hexpired⟩ =>
      ⟨entry, List.mem_append_left _ hentry, hexpired⟩
  · refine hsound.files_of_write (fun entry hentry => hfresh entry hentry id rfl)
      (fun name _ => ?_) fun name content' => left_stranded_iff content'
    rw [(hsound.housed.toFiled.write hid hwrite).2, hfg]

/-- An operation leaves a sound host. -/
theorem step (hsound : Sound log h d p) (hstep : Step h d now event h' d')
    (hregular : Regular (log ++ [(now, event)])) : Sound (log ++ [(now, event)]) h' d' p := by
  obtain ⟨hold, -⟩ := hregular.of_concat
  cases hstep with
  | stored hok => exact hsound.step_stored hregular hok
  | stranded hsuffix hbeyond => exact hsound.step_stranded hregular hsuffix hbeyond
  | refused hrefused =>
    exact hsound.take hold (hsound.housed.takes_none (P := fun _ => False) fun _ _ => id)
      hsound.housed rfl (fun u h => nomatch h) (fun u h => h.elim)
  | cleaned hok =>
    obtain ⟨htakes, hhoused⟩ := hsound.housed.cleanup hok
    refine hsound.take hold htakes hhoused rfl (fun u hevent => ?_) (fun u hP => ?_)
    · cases hevent
      exact .inl rfl
    · exact hP.imp (fun hid => by rw [hid]) of_decide_eq_true
  | purged hok =>
    obtain ⟨htakes, hhoused⟩ := hsound.housed.purge hok
    exact hsound.take hold htakes hhoused rfl (fun u hevent => nomatch hevent)
      fun u hexpired => .inr (of_decide_eq_true hexpired)

theorem run (hstart : Sound [] h₀ d₀ p) (hrun : Run h₀ d₀ log h d) (hregular : Regular log) :
    Sound log h d p := by
  induction hrun with
  | start => exact hstart
  | next hrun hstep ih => exact (ih hregular.of_concat.1).step hstep hregular

/-- An outstanding upload that expires after the last event has its record and its file. -/
theorem get?_of_outstanding (hsound : Sound log h d p) (hout : log.Outstanding u content)
    (hlive : ∀ entry ∈ log, entry.1 < u.expiresAt) :
    h.records.get? u.id = some u ∧ d.lookup u.path = .ok (.file content) := by
  have hget : h.records.get? u.id = some u := by
    refine (hsound.kept hout).resolve_right ?_
    rintro ⟨entry, hentry, hexpired⟩
    exact absurd hexpired (Int.not_le.2 (hlive entry hentry))
  have hgenuine := hsound.housed.genuine hget
  have hnode := (hsound.files u.fileName hgenuine.not_mem_tableNames
    ⟨hgenuine.plainName.nonempty, hgenuine.plainName.stroke⟩ _).2
    ⟨content, rfl, .inl ⟨u, hget, hout, rfl⟩⟩
  refine ⟨hget, ?_⟩
  rw [hgenuine.path_eq, hsound.housed.opens.lookup_join hgenuine.plainName]
  · exact hnode
  · rw [← hgenuine.path_eq]
    exact hgenuine.usable

/-- The names in the directory, but for those of the table, are those of the files left. -/
theorem mem_names_iff (hsound : Sound log h d p)
    (huuid : ∀ entry ∈ log, ∀ id, entry.2.issued? = some id → IsUuid id) {names : List String}
    (hnames : d.names h.directory = .ok names) (hname : name ∉ tableNames) :
    name ∈ names ↔ ∃ content, Left log h name content := by
  rw [hsound.housed.opens.mem_names_iff hnames]
  constructor
  · rintro ⟨hplain, hsome⟩
    obtain ⟨node, hnode⟩ := Option.isSome_iff_exists.1 hsome
    obtain ⟨content, -, hleft⟩ := (hsound.files name hname hplain node).1 hnode
    exact ⟨content, hleft⟩
  · rintro ⟨content, hleft⟩
    obtain ⟨entry, hentry, id, f, hissued, rfl⟩ := hsound.exists_issued hleft
    have hname' := (huuid entry hentry id hissued).plainName f
    have hplain := And.intro hname'.nonempty hname'.stroke
    refine ⟨hplain, ?_⟩
    rw [(hsound.files _ hname hplain _).2 ⟨content, rfl, hleft⟩]
    rfl

end Sound

/-- A host that is opened on a directory without files is sound. -/
theorem exists_sound_start {options : TemporaryOptions} {systemTemp : String} {start : Instant}
    (hopen : ofOptions options systemTemp start d = (.ok h, d'))
    (hempty : d'.names h.directory = .ok []) : ∃ p, Sound [] h d' p := by
  obtain ⟨p, hopens⟩ := Disk.exists_opens_of_names hempty
  have hnone : ∀ name, name ≠ "" ∧ '/' ∉ name.toList → d'.node? (p.child name) = none :=
    fun name => hopens.node?_eq_none hempty
  have htable : ∀ node, d'.lookup (tablePath h.directory) ≠ .ok node := by
    intro node hlookup
    have hnode := (hopens.lookup_join plainName_table (Disk.usable_of_lookup hlookup)).1 hlookup
    rw [hnone _ ⟨by decide, by decide⟩] at hnode
    cases hnode
  -- a purge that takes something leaves a table, and there is none
  have hrecords : h.records = ∅ := by
    obtain ⟨made, n, -, hpurge, hhost, hdisk⟩ := SharedDirectory.ofOptions_ok hopen
    rcases purge_cases hpurge with ⟨hsame, hmade⟩ | htabled
    · rw [hmade] at hdisk
      rw [hhost, hsame, ← hdisk]
      exact loadRecords_of_no_table htable
    · rw [← hhost, ← hdisk] at htabled
      exact absurd htabled (htable _)
  have hno : ∀ {id u}, h.records.get? id ≠ some u := by
    rw [hrecords]
    exact nofun
  refine ⟨p, ⟨⟨⟨hopens, fun hu => (hno hu).elim, fun hu => (hno hu).elim,
    fun hu => (hno hu).elim⟩, .inr ⟨hrecords, hnone _ ⟨by decide, by decide⟩⟩⟩,
    fun hu => (hno hu).elim, ?_, ?_⟩⟩
  · rintro u content ⟨before, later, time, hlog, -⟩
    simp at hlog
  · intro name hname hplain node
    rw [hnone name hplain]
    refine ⟨nofun, ?_⟩
    rintro ⟨content, -, ⟨u, hu, -⟩ | ⟨time, id, f, hmem, -⟩⟩
    · exact (hno hu).elim
    · cases hmem

@[simp]
theorem directory_store (h : UploadHost) (now : Instant) (id : String) (d : Disk)
    (content : Bytes) (name : String) : (h.store now id d content name).host.directory
      = h.directory := by
  rcases h.store_cases now id d content name with
    ⟨fault, hstore⟩ | ⟨f, written, -, -, hstore | ⟨expiresAt, -, hstore⟩⟩
  · rw [hstore]
  · rw [hstore]
  · rw [hstore, keep_host]
    rfl

theorem Run.directory_eq (hrun : Run h₀ d₀ log h d) : h.directory = h₀.directory := by
  induction hrun with
  | start => rfl
  | next hrun hstep ih =>
    rw [← ih]
    cases hstep <;> simp

/-! ### Opening the directory again -/

/-- The host with another lifetime for uploads. -/
def withDays (h : UploadHost) (days : Nat) : UploadHost :=
  { h with days }

/-- How long uploads live concerns those to come only. -/
theorem Housed.withDays (hhoused : h.Housed d p) (days : Nat) : (h.withDays days).Housed d p where
  opens := hhoused.opens
  key := hhoused.key
  genuine := hhoused.genuine
  file := hhoused.file
  table := hhoused.table.imp_left fun htable => ⟨htable.tabled, htable.guarded⟩

/-- The directory of a host at home can be opened again, with any lifetime of uploads. What is
opened is what a purge of the host would leave. -/
theorem Housed.exists_reopen (hhoused : h.Housed d p) {options : TemporaryOptions}
    {systemTemp : String}
    (hsame : Disk.join (options.tempDir.getD systemTemp) directoryName = h.directory) (t : Instant) :
    ∃ h' d', ofOptions options systemTemp t d = (.ok h', d') ∧
      Takes (·.isExpiredAt t = true) p h d h' d' ∧ h'.Housed d' p := by
  have hreader := hhoused.withDays options.expirationDays
  obtain ⟨n, hpurge⟩ := hreader.exists_purge t
  obtain ⟨htakes, hpurged⟩ := hreader.purge hpurge
  refine ⟨_, _, ?_, ⟨htakes.directory, htakes.opens, htakes.records, htakes.nodes⟩, hpurged⟩
  unfold ofOptions
  dsimp only
  rw [hsame, hhoused.opens.makeDirectories_eq]
  dsimp only
  rw [hhoused.loadRecords_eq]
  change (((h.withDays options.expirationDays).purge t d).result.map _, _) = _
  rw [hpurge]
  rfl

/-- The directory of a sound host can be opened again as a sound one. -/
theorem Sound.exists_reopen (hsound : Sound log h d p) (hregular : Regular log)
    {options : TemporaryOptions} {systemTemp : String}
    (hsame : Disk.join (options.tempDir.getD systemTemp) directoryName = h.directory) (t : Instant) :
    ∃ h' d', ofOptions options systemTemp t d = (.ok h', d') ∧
      Takes (·.isExpiredAt t = true) p h d h' d' ∧ Sound (log ++ [(t, .purged)]) h' d' p := by
  obtain ⟨h', d', hopen, htakes, hhoused⟩ := hsound.housed.exists_reopen hsame t
  exact ⟨h', d', hopen, htakes,
    hsound.take hregular htakes hhoused rfl (fun u hevent => nomatch hevent)
      fun u hexpired => .inr (of_decide_eq_true hexpired)⟩

section Answers

variable {t : Instant} (htakes : Takes (·.isExpiredAt t = true) p h d h' d') (hnow : t ≤ now)
include htakes hnow

/-- Where expired uploads are taken, the living ones are found as before. -/
theorem live?_of_takes : h'.live? now = h.live? now := by
  funext id
  ext u
  unfold live?
  rw [Option.filter_eq_some_iff, Option.filter_eq_some_iff, htakes.records, and_assoc]
  refine and_congr_right fun _ => and_iff_right_of_imp fun hlive hexpired => ?_
  rw [UploadRecord.isExpiredAt_mono hnow hexpired] at hlive
  cases hlive

/-- Where expired uploads are taken, the living ones are listed as before. -/
theorem list_of_takes : h'.list now = h.list now := by
  have hrecords : h'.records = h.records.filter fun _ u => !u.isExpiredAt t := by
    refine Dict.ext_get? fun id => Option.ext fun u => ?_
    rw [htakes.records, Dict.get?_filter, Option.filter_eq_some_iff, Bool.not_eq_true',
      Bool.not_eq_true]
  -- what lives now lived before, so the second test takes nothing more
  have hlater : ∀ u : UploadRecord, (!u.isExpiredAt now && !u.isExpiredAt t)
      = !u.isExpiredAt now := by
    intro u
    rw [← Bool.not_or]
    refine congrArg _ (Bool.or_eq_left_iff_imp.2 ?_)
    exact UploadRecord.isExpiredAt_mono hnow
  unfold list Dict.values
  rw [hrecords]
  show ((((h.records.entries.filter fun entry => !entry.2.isExpiredAt t).map Prod.snd).filter
    _).mergeSort _) = _
  rw [List.filter_map, List.filter_map, List.filter_filter]
  simp only [Function.comp_apply, hlater]
  rfl

/-- Where expired uploads are taken, the same URIs are accepted as before. -/
theorem accepts_of_takes (uri : String) : h'.accepts now uri = h.accepts now uri := by
  unfold accepts
  rw [live?_of_takes htakes hnow]

end Answers

/-- An upload directory that is opened again later, with whatever lifetime of uploads, is opened
without a fault. From then on the new host lists, finds and accepts what the old one would, and
the files left are those of the uploads that are neither cleaned up nor expired, with what was
uploaded in them, and those of the uploads given up because their expiry is beyond the
calendar. -/
theorem restart_transparent {options options' : TemporaryOptions} {systemTemp systemTemp' : String}
    {start t : Instant} {before : Disk}
    (hopen : ofOptions options systemTemp start before = (.ok h₀, d₀))
    (hempty : d₀.names h₀.directory = .ok []) (hrun : Run h₀ d₀ log h d) (hregular : Regular log)
    (hlater : ∀ entry ∈ log, entry.1 ≤ t)
    (hsame : Disk.join (options'.tempDir.getD systemTemp') directoryName = h₀.directory) :
    ∃ h' d', ofOptions options' systemTemp' t d = (.ok h', d') ∧
      (∀ now, t ≤ now → h'.list now = h.list now ∧
        (∀ uri, h'.accepts now uri = h.accepts now uri) ∧
        ∀ id, h'.info? now d' id = h.info? now d id ∧ h.info? now d' id = h.info? now d id) ∧
      (∀ u content, log.Outstanding u content → t < u.expiresAt →
        d'.lookup u.path = .ok (.file content)) ∧
      ∃ names, d'.names h₀.directory = .ok names ∧ ∀ name ∉ tableNames, (name ∈ names ↔
        (∃ u content, log.Outstanding u content ∧ t < u.expiresAt ∧ name = u.fileName) ∨
          ∃ content, log.Stranded name content) := by
  obtain ⟨p, hstart⟩ := exists_sound_start hopen hempty
  have hold := hstart.run hrun hregular
  obtain ⟨h', d', hreopen, htakes, hnew⟩ :=
    hold.exists_reopen hregular (hsame.trans hrun.directory_eq.symm) t
  have hfound : ∀ {u content}, log.Outstanding u content → t < u.expiresAt →
      h'.records.get? u.id = some u ∧ d'.lookup u.path = .ok (.file content) := by
    intro u content hout hlive
    refine hnew.get?_of_outstanding ((outstanding_concat_of_none rfl).2 ⟨hout, nofun⟩)
      fun entry hentry => ?_
    rcases List.mem_append.1 hentry with hentry | hentry
    · exact Int.lt_of_le_of_lt (hlater entry hentry) hlive
    · rw [List.mem_singleton.1 hentry]
      exact hlive
  refine ⟨h', d', hreopen, fun now hnow => ?_,
    fun u content hout hlive => (hfound hout hlive).2, ?_⟩
  · have hlive := live?_of_takes htakes hnow
    refine ⟨list_of_takes htakes hnow, accepts_of_takes htakes hnow, fun id => ?_⟩
    have hinfo := hnew.housed.info?_eq now id
    rw [hold.housed.info?_eq]
    refine ⟨hinfo.trans (congrFun hlive id), ?_⟩
    unfold info? at hinfo ⊢
    rwa [hlive] at hinfo
  · have huuid : ∀ entry ∈ log ++ [(t, .purged)], ∀ id, entry.2.issued? = some id → IsUuid id := by
      intro entry hentry id hissued
      rcases List.mem_append.1 hentry with hentry | hentry
      · exact hregular.uuid entry hentry id hissued
      · rw [List.mem_singleton.1 hentry] at hissued
        cases hissued
    have hdirectory : h'.directory = h₀.directory := htakes.directory.trans hrun.directory_eq
    rw [← hdirectory]
    refine ⟨_, hnew.housed.opens.names_eq, fun name hname => ?_⟩
    rw [hnew.mem_names_iff huuid hnew.housed.opens.names_eq hname]
    constructor
    · rintro ⟨content, ⟨u, hu, hout, hfile⟩ | hstranded⟩
      · obtain ⟨-, hlive⟩ := (htakes.records _ _).1 hu
        have hout := (outstanding_concat_of_none rfl).1 hout
        exact .inl ⟨u, content, hout.1, Int.not_le.1 fun h => hlive (decide_eq_true h), hfile⟩
      · exact .inr ⟨content, (stranded_concat_of_none rfl).1 hstranded⟩
    · rintro (⟨u, content, hout, hlive, hfile⟩ | ⟨content, hstranded⟩)
      · exact ⟨content, .inl ⟨u, (hfound hout hlive).1,
          (outstanding_concat_of_none rfl).2 ⟨hout, nofun⟩, hfile⟩⟩
      · exact ⟨content, .inr ((stranded_concat_of_none rfl).2 hstranded)⟩

/-! ### Two short runs -/

theorem regular_singleton (hissued : ∀ id, event.issued? = some id → IsUuid id)
    (hclock : Instant.InCalendar now)
    (hsize : ∀ u content, event = .stored u content → content.length < 2 ^ 64) :
    Regular [(now, event)] where
  ids := List.pairwise_singleton _ _
  uuid entry hentry := by
    rw [List.mem_singleton.1 hentry]
    exact hissued
  clock entry hentry := by
    rw [List.mem_singleton.1 hentry]
    exact hclock
  size entry hentry := by
    rw [List.mem_singleton.1 hentry]
    exact hsize

/-- The id of the upload in both runs. -/
def someId : String := "00000000-0000-4000-8000-000000000000"

theorem inCalendar_one : Instant.InCalendar 1 :=
  ⟨by decide +kernel, by decide +kernel⟩

/-- An upload that is stored on a disk without files is there when the directory is opened
again. -/
theorem restart_transparent_of_stored : ∃ (u : UploadRecord) (h h' : UploadHost) (d d' : Disk),
    Run SharedDirectory.idle SharedDirectory.bare [(1, .stored u [0x73])] h d ∧
      ofOptions {} "" 2 d = (.ok h', d') ∧ h'.list 2 = h.list 2 ∧
      d'.lookup u.path = .ok (.file [0x73]) := by
  obtain ⟨u, hu, htest⟩ : ∃ u, (SharedDirectory.idle.store 1 someId SharedDirectory.bare [0x73]
      "x.csv").result = .ok u ∧ decide (2 < u.expiresAt) = true :=
    exists_of_any_toOption (by decide +kernel)
  have hrun := Run.next .start (.stored hu)
  have hregular : Regular ([] ++ [(1, .stored u [0x73])]) := by
    refine regular_singleton (fun id hissued => ?_) inCalendar_one fun v content hstored => ?_
    · rw [← Option.some.inj hissued, id_of_store hu]
      decide
    · cases hstored
      decide
  obtain ⟨h', d', hopen, hanswers, hfiles, -⟩ := @restart_transparent _ _ _ _ _ {} {} "" "" 0 2
    .empty (by decide +kernel) (by decide +kernel) hrun hregular (by simp) (by decide +kernel)
  exact ⟨u, _, h', _, d', hrun, hopen, (hanswers 2 (by decide)).1,
    hfiles u [0x73] ⟨[], [], 1, rfl, by simp⟩ (of_decide_eq_true htest)⟩

deriving instance DecidableEq for UploadFault

/-- A host whose uploads would live longer than the calendar reaches. -/
def lasting : UploadHost :=
  { SharedDirectory.idle with days := 4294967295 }

/-- What becomes of an upload to that host. -/
def givenUp : UploadStep (Except UploadFault UploadRecord) :=
  lasting.store 1 someId SharedDirectory.bare [0x73] "x.csv"

/-- An upload that would live longer than the calendar reaches is given up when its file is
written, and the file is still there when the directory is opened again. -/
theorem not_forall_files_of_uploads :
    ¬ ∀ (options options' : TemporaryOptions) (systemTemp systemTemp' : String)
      (start t : Instant) (before : Disk) (h₀ h : UploadHost) (d₀ d : Disk) (log : UploadLog),
      ofOptions options systemTemp start before = (.ok h₀, d₀) →
      d₀.names h₀.directory = .ok [] → Run h₀ d₀ log h d → Regular log →
      (∀ entry ∈ log, entry.1 ≤ t) →
      Disk.join (options'.tempDir.getD systemTemp') directoryName = h₀.directory →
      ∃ h' d' names, ofOptions options' systemTemp' t d = (.ok h', d') ∧
        d'.names h₀.directory = .ok names ∧ ∀ name ∉ tableNames, (name ∈ names ↔
          ∃ u content, log.Outstanding u content ∧ t < u.expiresAt ∧ name = u.fileName) := by
  intro hall
  have hbeyond : givenUp.result = .error .beyondCalendar := by decide +kernel
  have hsuffix : storedSuffix? "x.csv" = some GraphFormat.edgeList.suffix := by decide
  have hrun := Run.next .start (.stranded hsuffix hbeyond)
  have hregular : Regular ([] ++ [(1, .stranded someId .edgeList [0x73])]) := by
    refine regular_singleton (fun id hissued => ?_) inCalendar_one fun v content hstored => ?_
    · rw [← Option.some.inj hissued]
      decide
    · cases hstored
  obtain ⟨h', d', names, hopen, hnames, hfiles⟩ := hall { expirationDays := 4294967295 } {} "" ""
    0 2 .empty lasting givenUp.host SharedDirectory.bare givenUp.disk _ (by decide +kernel)
    (by decide +kernel) hrun hregular (by simp) (by decide +kernel)
  have hfile : (ofOptions {} "" 2 givenUp.disk).2.lookup
      (Disk.join lasting.directory (someId ++ ".csv")) = .ok (.file [0x73]) := by decide +kernel
  rw [hopen] at hfile
  obtain ⟨p, hopens⟩ := Disk.exists_opens_of_names hnames
  have hplain : Disk.PlainName (someId ++ ".csv") :=
    @IsUuid.plainName someId (by decide) .edgeList
  have hnode := (hopens.lookup_join hplain (Disk.usable_of_lookup hfile)).1 hfile
  have hleft : someId ++ ".csv" ∈ names :=
    (hopens.mem_names_iff hnames).2 ⟨⟨hplain.nonempty, hplain.stroke⟩, by rw [hnode]; rfl⟩
  obtain ⟨u, content, hout, -⟩ := (hfiles _ (by decide)).1 hleft
  obtain ⟨time, hmem⟩ := hout.exists_mem
  cases List.mem_singleton.1 hmem

end UploadHost

end MotifQuery
