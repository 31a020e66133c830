import MotifQuery.Proofs.Host.Frame
import MotifQuery.Proofs.Service.Configured
import MotifQuery.Proofs.Service.Faults
import MotifQuery.Proofs.Service.Rebuilt

/-!
# `MotifQuery.Proofs.Service.Restart`: uploads after a restart

The record of an upload is kept in the table of its directory, and the name that it was given in
the registry alone. A service that is made again, after whatever uploads, clean-ups and queries,
has every upload that is not expired, with its record as it was, but under the name of its file
(`Service.uploads_after_restart`). Where no other name was given, the new service answers about
uploads as the old one would (`Service.uploads_survive_restart`); where one was, it does not
(`Service.not_forall_uploads_survive_restart`).

What carries the first along the calls is `Service.Steady`: the upload host stays at home in its
directory. It is at home when the directory is empty at first (`Service.atHome_of_empty`), and
again when the service is made again.
-/

set_option autoImplicit false

namespace MotifQuery

open Text UploadHost

/-! ### Names of uploads -/

/-- The upload under the name of its file. -/
def UploadListing.byFile (u : UploadListing) : UploadListing :=
  { u with name := u.record.givenName }

namespace Service

section

variable {s : Surroundings} {c : ServerConfig} {front back : List ProviderConfig}
  {p : ProviderConfig} {options : TemporaryOptions} {v : Service} {d e : Disk} {id : String}
  {h : UploadHost}

/-- The uploads of the host that are registered go by the names of their files. -/
def NamedByFile (v : Service) (h : UploadHost) : Prop :=
  ∀ key u, h.records.get? key = some u →
    ∀ x, v.registry.unlisted? u.id = some x → x.name = u.givenName

/-- An upload that is not registered goes by the name of its file anyway. -/
theorem NamedByFile.listUpload_eq (hnamed : v.NamedByFile h) {u : UploadRecord} {key : String}
    (hu : h.records.get? key = some u) :
    v.listUpload u = { record := u, name := u.givenName } := by
  unfold listUpload
  cases hlisted : v.registry.unlisted? u.id with
  | none => rfl
  | some x => exact congrArg (UploadListing.mk u) (hnamed key u hu x hlisted)

/-- An upload that is registered under the name of its file goes by that name. -/
theorem NamedByFile.register {w : Service} {u : UploadRecord} {shown providerId : String}
    (hnamed : v.NamedByFile h) (hkey : ∀ {key u}, h.records.get? key = some u → u.id = key)
    (hregistry : w.registry = v.registry.add (u.listing shown providerId))
    (hshown : shown = u.givenName) : w.NamedByFile (h.withRecord u) := by
  intro key other hother x hx
  rw [hregistry, HostRegistry.unlisted?_add] at hx
  rw [get?_withRecord] at hother
  split at hother
  · cases hother
    rw [if_pos (show (u.listing shown providerId).id = u.id from rfl)] at hx
    cases hx
    exact hshown
  · next hne =>
    rw [if_neg fun hid => hne ((hkey hother).symm.trans hid.symm)] at hx
    exact hnamed key other hother x hx

/-- In a new service every upload goes by the name of its file. -/
theorem namedByFile_of_ofConfig (hone : c.OneTemporary front p options back)
    (hconfig : ofConfig s d c = (.ok v, e)) (hhost : v.uploadHost? = some (id, h))
    (hkey : ∀ {key u}, h.records.get? key = some u → u.id = key) : v.NamedByFile h := by
  obtain ⟨-, -, opened, -, -, -, -, hall⟩ := exists_made_around hone hconfig
  obtain rfl : h = opened := hall _ (mem_of_uploadHost? hhost) h rfl
  intro key u hu x hx
  obtain ⟨entry, hentry, g, hg, otherKey, other, hother, hid, rfl⟩ :=
    exists_stored_of_unlisted hconfig hx
  obtain rfl := hall entry hentry g hg
  rw [← hkey hother, hid, hkey hu, hu] at hother
  rw [Option.some.inj hother]
  rfl

end

/-! ### Runs -/

end Service

/-- What the surroundings of a call see to: the id of an upload is a UUID, the clock stays within
the calendar, and the size of an upload within 64 bits. -/
structure ServiceCall.Regular (c : ServiceCall) : Prop where
  uuid : ∀ id, c.issuedId? = some id → IsUuid id
  clock : Instant.InCalendar c.around.now
  size : ∀ content fileName name, c.request = .upload content fileName name →
    content.length < 2 ^ 64

/-- Where the call is an upload, no other name is given than that of the file. -/
def ServiceCall.NamedByFile (c : ServiceCall) : Prop :=
  ∀ content fileName name, c.request = .upload content fileName name →
    Service.shownName fileName name = fileName

namespace Service

variable {s : Surroundings} {v v₀ : Service} {l : Layout} {h h₀ : UploadHost} {q : DiskPlace}
  {c : ServiceCall}

/-- What calls keep up since the service was `v₀` and its upload host `h₀`: the host is at home in
the same directory, and no directory goes. -/
structure Steady (l : Layout) (q : DiskPlace) (v₀ : Service) (h₀ : UploadHost) (v : Service)
    (h : UploadHost) : Prop where
  router : v.router = l.router h
  housed : h.Housed v.disk q
  directory : h.directory = h₀.directory
  directories : Disk.DirectoriesIn v₀.disk v.disk

namespace Steady

/-- An upload keeps the service steady, and the names of uploads those of their files where it
gives none other. -/
theorem upload {content : Bytes} {fileName : String} {name : Option String} (hl : l.Sound)
    (hsteady : Steady l q v₀ h₀ v h)
    (hregular : (ServiceCall.mk s (.upload content fileName name)).Regular)
    (hcall : v.Untroubled ⟨s, .upload content fileName name⟩) :
    ∃ h', Steady l q v₀ h₀ (v.upload s content fileName name).2 h' ∧
      (v.NamedByFile h → shownName fileName name = fileName →
        (v.upload s content fileName name).2.NamedByFile h') := by
  have huuid : IsUuid s.freshId := hregular.uuid s.freshId rfl
  have hadds : Disk.Adds (Tabling q fun _ => True) v.disk
      (h.store s.now s.freshId v.disk content fileName).disk :=
    adds_store hsteady.housed.opens fun _ _ => trivial
  have hdirectories := hsteady.directories.trans hadds.directories
  rcases upload_cases hl hsteady.router content fileName name with
    ⟨-, hsame⟩ | ⟨fault, hstore, hfault, hafter⟩ | ⟨u, hstore, -, hafter⟩
  · rw [hsame]
    exact ⟨h, hsteady, fun hnamed _ => hnamed⟩
  · cases fault with
    | refused f =>
      rw [hcall.traceless content fileName name f rfl hfault]
      exact ⟨h, hsteady, fun hnamed _ => hnamed⟩
    | beyondCalendar =>
      -- the file is written, and no record tells of it
      obtain ⟨f, written, -, hwrite, hstored⟩ := store_beyondCalendar hstore
      rw [hafter]
      refine ⟨h, ⟨?_, ?_, hsteady.directory, hdirectories⟩, fun hnamed _ => hnamed⟩
      · rw [router_afterStep hl hsteady.router, hstored]
      · rw [hstored]
        exact hsteady.housed.write huuid hwrite
  · have hsize := hregular.size content fileName name rfl
    obtain ⟨-, -, hhost, hhoused, -⟩ :=
      hsteady.housed.store huuid hregular.clock hsize hstore
    rw [hafter]
    refine ⟨h.withRecord u, ⟨?_, hhoused, hsteady.directory, hdirectories⟩,
      fun hnamed hname => hnamed.register hsteady.housed.key rfl ?_⟩
    · rw [← hhost]
      exact router_afterStep hl hsteady.router _
    · obtain ⟨f, written, expiresAt, -, -, -, rfl, -⟩ := store_ok hstore
      exact hname

/-- A clean-up keeps the service steady, and the names of uploads those of their files. -/
theorem cleanup {id : String} (hl : l.Sound) (hsteady : Steady l q v₀ h₀ v h)
    (hcall : v.Untroubled ⟨s, .cleanup id⟩) :
    ∃ h', Steady l q v₀ h₀ (v.cleanup s id).2 h' ∧
      (v.NamedByFile h → (v.cleanup s id).2.NamedByFile h') := by
  obtain ⟨found, hok⟩ := hcall.unhindered.exists_found hl hsteady.router
  obtain ⟨htakes, hhoused⟩ := hsteady.housed.cleanup hok
  rw [cleanup_eq hl hsteady.router]
  refine ⟨_, ⟨router_afterStep hl hsteady.router _, hhoused,
    htakes.directory.trans hsteady.directory,
    hsteady.directories.trans (adds_cleanup hsteady.housed.opens s.now id).directories⟩,
    fun hnamed key u hu x hx => ?_⟩
  change (v.registry.remove id).unlisted? u.id = some x at hx
  rw [HostRegistry.unlisted?_remove] at hx
  split at hx
  · cases hx
  · exact hnamed key u ((htakes.records key u).1 hu).1 x hx

/-- A query keeps the service steady, and the registry as it is. -/
theorem ask (hsteady : Steady l q v₀ h₀ v h) (question : HostQuery) :
    Steady l q v₀ h₀ (question.ask s v).2 h ∧
      (v.NamedByFile h → (question.ask s v).2.NamedByFile h) := by
  obtain ⟨disk, hafter, hdisk⟩ := loads_ask s v question
  rw [hafter]
  rcases hdisk with rfl | ⟨p, uri, rfl⟩
  · exact ⟨hsteady, id⟩
  · -- loading may fill a cache, under names that no file of an upload has
    exact ⟨⟨hsteady.router, hsteady.housed.load s uri p, hsteady.directory,
      hsteady.directories.trans
        (p.adds_load (q := q) (P := fun _ => True) s v.disk uri).directories⟩, id⟩

/-- A call keeps the service steady, and the names of uploads those of their files. -/
theorem serve (hl : l.Sound) (hsteady : Steady l q v₀ h₀ v h) (hregular : c.Regular)
    (hcall : v.Untroubled c) :
    ∃ h', Steady l q v₀ h₀ (v.serve c) h' ∧
      (v.NamedByFile h → c.NamedByFile → (v.serve c).NamedByFile h') := by
  obtain ⟨s, request⟩ := c
  cases request with
  | upload content fileName name =>
    obtain ⟨h', hafter, hnames⟩ := hsteady.upload hl hregular hcall
    exact ⟨h', hafter, fun hnamed hname => hnames hnamed (hname content fileName name rfl)⟩
  | cleanup id =>
    obtain ⟨h', hafter, hnames⟩ := hsteady.cleanup hl hcall
    exact ⟨h', hafter, fun hnamed _ => hnames hnamed⟩
  | query question =>
    obtain ⟨hafter, hnames⟩ := hsteady.ask question
    exact ⟨h, hafter, fun hnamed _ => hnames hnamed⟩

theorem serveAll {calls : List ServiceCall} (hl : l.Sound) (hsteady : Steady l q v₀ h₀ v h)
    (hregular : ∀ c ∈ calls, c.Regular) (hcalls : v.Along Untroubled calls) :
    ∃ h', Steady l q v₀ h₀ (v.serveAll calls) h' ∧
      (v.NamedByFile h → (∀ c ∈ calls, c.NamedByFile) → (v.serveAll calls).NamedByFile h') := by
  refine hcalls.induction (Q := fun w => ∃ h', Steady l q v₀ h₀ w h' ∧
    (v.NamedByFile h → (∀ c ∈ calls, c.NamedByFile) → w.NamedByFile h'))
    ⟨h, hsteady, fun hnamed _ => hnamed⟩ ?_
  intro w c hc hcall ⟨g, hw, hwnamed⟩
  obtain ⟨g', hw', hnamed⟩ := hw.serve hl (hregular c hc) hcall
  exact ⟨g', hw', fun hstart hall => hnamed (hwnamed hstart hall) (hall c hc)⟩

end Steady

/-! ### Answers after a restart -/

/-- The upload host of the service is at home in its directory. -/
def AtHome (v : Service) : Prop :=
  ∀ entry ∈ v.uploadHost?, ∃ q, entry.2.Housed v.disk q

/-- Where one service has what the other has but for uploads that are expired, and shows each as
the function does, it gives the answers about uploads that the other gives, up to the function. -/
theorem answers_of_takes {w : Service} {s' : Surroundings} {h' : UploadHost} {id id' : String}
    {t : Instant} {f : UploadListing → UploadListing} (hv : v.uploadHost? = some (id, h))
    (hw : w.uploadHost? = some (id', h')) (hhoused : h.Housed v.disk q)
    (hhoused' : h'.Housed w.disk q)
    (htakes : Takes (·.isExpiredAt t = true) q h v.disk h' w.disk) (hnow : t ≤ s'.now)
    (hshown : ∀ {key u}, h'.records.get? key = some u → w.listUpload u = f (v.listUpload u)) :
    w.uploads s' = (v.uploads s').map (List.map f) ∧
      ∀ id, w.uploadInfo s' id = (v.uploadInfo s' id).map f := by
  constructor
  · unfold uploads
    rw [hv, hw]
    dsimp only
    rw [← list_of_takes htakes hnow]
    change Except.ok _ = Except.ok (List.map f (List.map v.listUpload _))
    rw [List.map_map]
    refine congrArg Except.ok (List.map_congr_left fun u hu => ?_)
    obtain ⟨stored, hstored, rfl⟩ := List.mem_map.1 (mem_list_iff.1 hu).1
    exact hshown (Dict.mem_entries_iff.1 hstored)
  · intro id
    unfold uploadInfo
    rw [hv, hw]
    dsimp only
    -- what is asked for is live at the time, and live uploads are in both
    rw [hhoused.info?_eq, hhoused'.info?_eq, ← live?_of_takes htakes hnow]
    split
    · next u hu => exact congrArg Except.ok (hshown (Option.filter_eq_some_iff.1 hu).1)
    · rfl

section

variable {cfg : ServerConfig} {front back : List ProviderConfig} {p : ProviderConfig}
  {options : TemporaryOptions} {s₀ : Surroundings} {d d₀ : Disk} {calls : List ServiceCall}

/-- A service of an accepted configuration with a provider that holds uploads has an upload
host. -/
theorem exists_uploadHost (haccepted : cfg.Accepted) (hone : cfg.OneTemporary front p options back)
    (hconfig : ofConfig s₀ d cfg = (.ok v₀, d₀)) : ∃ id h, v₀.uploadHost? = some (id, h) := by
  obtain ⟨entry, hentry, h, hh, -⟩ := exists_uploads_of_made
    (made_of_ofConfig haccepted.nodup_providerIds hconfig)
    (show p ∈ cfg.providers by rw [hone.providers]; simp) hone.kind
  cases hhost : v₀.uploadHost? with
  | some found => exact ⟨found.1, found.2, rfl⟩
  | none =>
    have hnone := List.findSome?_eq_none_iff.1 hhost entry hentry
    rw [hh] at hnone
    cases hnone

/-- After a run of calls the service can be made again. The new one has the uploads of the old one
but for those that are expired, all of them under the names of their files. -/
theorem exists_restarted (haccepted : cfg.Accepted)
    (hone : cfg.OneTemporary front p options back) (hconfig : ofConfig s₀ d cfg = (.ok v₀, d₀))
    (hhome : v₀.AtHome) (hregular : ∀ c ∈ calls, c.Regular) (hcalls : v₀.Along Untroubled calls)
    (halike : s₀.Alike s) :
    ∃ w e id h h' q, ofConfig s (v₀.serveAll calls).disk cfg = (.ok w, e) ∧
      (v₀.serveAll calls).uploadHost? = some (id, h) ∧ h.Housed (v₀.serveAll calls).disk q ∧
      w.uploadHost? = some (id, h') ∧ h'.Housed w.disk q ∧
      Takes (·.isExpiredAt s.now = true) q h (v₀.serveAll calls).disk h' w.disk ∧
      w.NamedByFile h' ∧
      ((∀ c ∈ calls, c.NamedByFile) → (v₀.serveAll calls).NamedByFile h) := by
  obtain ⟨hdistinct, hconfigured, -⟩ := ofConfig_spec hconfig
  obtain ⟨id, h₀, hhost⟩ := exists_uploadHost haccepted hone hconfig
  obtain ⟨l, hl, rfl, hv₀⟩ := exists_layout hdistinct hconfigured hhost
  obtain ⟨q, hhoused⟩ := hhome (l.id, h₀) hhost
  have hstart : Steady l q v₀ h₀ v₀ h₀ := ⟨hv₀, hhoused, rfl, fun _ hplace => hplace⟩
  obtain ⟨h, hsteady, hnamed⟩ := hstart.serveAll hl hregular hcalls
  have hdisk : v₀.disk = d₀ := (exists_router_of_ofConfig hconfig).2.1
  obtain ⟨w, e, h', hw, hhost', htakes, hhoused'⟩ := exists_rebuilt hone hconfig hhost halike
    (hdisk ▸ hsteady.directories) hsteady.housed hsteady.directory
  obtain rfl : w.disk = e := (exists_router_of_ofConfig hw).2.1
  exact ⟨w, w.disk, l.id, h, h', q, hw, uploadHost?_of_layout hl hsteady.router, hsteady.housed,
    hhost', hhoused', htakes, namedByFile_of_ofConfig hone hw hhost' hhoused'.key,
    hnamed (namedByFile_of_ofConfig hone hconfig hhost hhoused.key)⟩

/-- A service that is made again after a run of calls has every upload that is not expired, and
lists it with its record as it was. What it was given as a name is lost: each upload goes by the
name of its file. -/
theorem uploads_after_restart (haccepted : cfg.Accepted)
    (hone : cfg.OneTemporary front p options back) (hconfig : ofConfig s₀ d cfg = (.ok v₀, d₀))
    (hhome : v₀.AtHome) (hregular : ∀ c ∈ calls, c.Regular) (hcalls : v₀.Along Untroubled calls)
    (halike : s₀.Alike s) :
    ∃ w e, ofConfig s (v₀.serveAll calls).disk cfg = (.ok w, e) ∧
      ∀ s' : Surroundings, s.now ≤ s'.now →
        w.uploads s' = ((v₀.serveAll calls).uploads s').map (List.map UploadListing.byFile) ∧
        ∀ id, w.uploadInfo s' id
          = ((v₀.serveAll calls).uploadInfo s' id).map UploadListing.byFile := by
  obtain ⟨w, e, id, h, h', q, hw, hhost, hhoused, hhost', hhoused', htakes, hnew, -⟩ :=
    exists_restarted haccepted hone hconfig hhome hregular hcalls halike
  exact ⟨w, e, hw, fun s' hnow => answers_of_takes hhost hhost' hhoused hhoused' htakes hnow
    fun hu => hnew.listUpload_eq hu⟩

/-- A service that is made again after a run of calls answers every listing and every look-up of
uploads as the old one would, as long as no upload was given a name other than that of its
file. -/
theorem uploads_survive_restart (haccepted : cfg.Accepted)
    (hone : cfg.OneTemporary front p options back) (hconfig : ofConfig s₀ d cfg = (.ok v₀, d₀))
    (hhome : v₀.AtHome) (hregular : ∀ c ∈ calls, c.Regular) (hcalls : v₀.Along Untroubled calls)
    (hnamed : ∀ c ∈ calls, c.NamedByFile) (halike : s₀.Alike s) :
    ∃ w e, ofConfig s (v₀.serveAll calls).disk cfg = (.ok w, e) ∧ w.AtHome ∧
      ∀ s' : Surroundings, s.now ≤ s'.now →
        w.uploads s' = (v₀.serveAll calls).uploads s' ∧
        ∀ id, w.uploadInfo s' id = (v₀.serveAll calls).uploadInfo s' id := by
  obtain ⟨w, e, name, h, h', q, hw, hhost, hhoused, hhost', hhoused', htakes, hnew, hold⟩ :=
    exists_restarted haccepted hone hconfig hhome hregular hcalls halike
  refine ⟨w, e, hw, fun entry hentry => ?_, fun s' hnow => ?_⟩
  · rw [Option.mem_def, hhost', Option.some.injEq] at hentry
    subst hentry
    exact ⟨q, hhoused'⟩
  · obtain ⟨huploads, hinfo⟩ := answers_of_takes (f := id) hhost hhost' hhoused hhoused'
      htakes hnow fun {key u} hu => by
        rw [hnew.listUpload_eq hu, (hold hnamed).listUpload_eq ((htakes.records key u).1 hu).1, id]
    rw [List.map_id_fun, Except.map_id] at huploads
    exact ⟨huploads, fun id => (hinfo id).trans (congrFun Except.map_id _)⟩

/-! ### An upload under another name -/

/-- A service that is made on an empty upload directory is at home. -/
theorem atHome_of_empty (hempty : ∀ entry ∈ v.uploadHost?,
    entry.2.records = ∅ ∧ v.disk.names entry.2.directory = .ok []) : v.AtHome := by
  intro entry hentry
  obtain ⟨hrecords, hnames⟩ := hempty entry hentry
  obtain ⟨q, hopens⟩ := Disk.exists_opens_of_names hnames
  have hno : ∀ {key u}, entry.2.records.get? key ≠ some u := by
    rw [hrecords]
    exact nofun
  exact ⟨q, ⟨⟨hopens, fun hu => (hno hu).elim, fun hu => (hno hu).elim, fun hu => (hno hu).elim⟩,
    .inr ⟨hrecords, hopens.node?_eq_none hnames ⟨by decide, by decide⟩⟩⟩⟩

/-- An edge list is uploaded, under a name or without. -/
def edgeListUpload (name : Option String) : ServiceCall :=
  ⟨reporting 1 someId, .upload (bytesOf "source,target\na,b\n") "up.csv" name⟩

theorem regular_edgeListUpload (name : Option String) : (edgeListUpload name).Regular where
  uuid id hid := by
    cases hid
    exact (by decide : IsUuid someId)
  clock := inCalendar_one
  size content fileName name hrequest := by
    cases hrequest
    decide +kernel

/-- On a service with an empty upload directory the upload succeeds, and it is listed under the
name that it was given. -/
theorem exists_listed : ∃ cfg p v₀, cfg.Accepted ∧ cfg.OneTemporary [] p {} [] ∧
    ofConfig (reporting 0 "") .empty cfg = (.ok v₀, (ofConfig (reporting 0 "") .empty cfg).2) ∧
    v₀.AtHome ∧ (∀ name ∈ [none, some "Path"], v₀.Untroubled (edgeListUpload name)) ∧
    ∃ us, (v₀.serve (edgeListUpload (some "Path"))).uploads (reporting 3 "") = .ok us ∧
      ∃ u ∈ us, u.name ≠ u.record.givenName := by
  have htest : (ServerConfig.ofYamlText ("providers:\n- id: one\n  type: temporary\nhosts: []\n"
      ++ "query_limits:\n  max_ram_bytes: 1\n  max_duration_seconds: null\n")).toOption.any (fun c =>
      decide (c.providers.map (·.kind.toOption) = [some (.temporary {})]) &&
      (ofConfig (reporting 0 "") .empty c).1.toOption.any fun v =>
        (v.uploadHost?.all fun entry =>
          entry.2.records = ∅ && decide ((v.disk.names entry.2.directory).toOption = some [])) &&
        ([none, some "Path"].all fun name => (v.upload (reporting 1 someId)
          (bytesOf "source,target\na,b\n") "up.csv" name).1.toOption.any fun _ => true) &&
        ((v.serve (edgeListUpload (some "Path"))).uploads (reporting 3 "")).toOption.any fun us =>
          us.any fun u => u.name ≠ u.record.givenName) = true := by
    refine ServerConfig.any_ofYamlText
      (toList_append_of String.toList_ofList String.toList_ofList) ?_
    decide +kernel
  obtain ⟨cfg, hread, htest⟩ := exists_of_any_toOption htest
  rw [Bool.and_eq_true, decide_eq_true_eq, List.map_eq_singleton_iff] at htest
  obtain ⟨⟨p, hproviders, hkind⟩, htest⟩ := htest
  obtain ⟨v₀, hservice, htest⟩ := exists_of_any_toOption htest
  simp only [Bool.and_eq_true] at htest
  obtain ⟨⟨hempty, huploads⟩, hlisted⟩ := htest
  obtain ⟨us, hus, hname⟩ := exists_of_any_toOption hlisted
  refine ⟨cfg, p, v₀, .yaml hread, ⟨hproviders, ?_, fun _ hq => absurd hq List.not_mem_nil⟩,
    Prod.ext hservice rfl, atHome_of_empty fun entry hentry => ?_, fun name hname => ?_, us, hus, ?_⟩
  · exact eq_ok_of_toOption hkind
  · rw [Option.mem_def.1 hentry, Option.all_some, Bool.and_eq_true, decide_eq_true_eq,
      decide_eq_true_eq] at hempty
    exact ⟨hempty.1, eq_ok_of_toOption hempty.2⟩
  · obtain ⟨receipt, hok, -⟩ := exists_of_any_toOption (List.all_eq_true.1 huploads name hname)
    exact untroubled_of_receipt hok
  · simpa using hname

/-- An edge list that is uploaded without a name is listed as before when the service is made
again. -/
theorem uploads_survive_restart_of_edge_list :
    ∃ cfg v₀ w e, ofConfig (reporting 0 "") .empty cfg
        = (.ok v₀, (ofConfig (reporting 0 "") .empty cfg).2) ∧
      ofConfig (reporting 2 "") (v₀.serve (edgeListUpload none)).disk cfg = (.ok w, e) ∧
      w.uploads (reporting 3 "") = (v₀.serve (edgeListUpload none)).uploads (reporting 3 "") := by
  obtain ⟨cfg, p, v₀, haccepted, hone, hconfig, hhome, hcalls, -⟩ := exists_listed
  obtain ⟨w, e, hw, -, hanswers⟩ := @uploads_survive_restart (reporting 2 "") v₀ cfg [] [] p {}
    (reporting 0 "") .empty _ [edgeListUpload none] haccepted hone hconfig hhome
    (fun c hc => List.mem_singleton.1 hc ▸ regular_edgeListUpload none)
    (along_singleton (hcalls none (by simp)))
    (fun c hc content fileName name hrequest => by
      rw [List.mem_singleton.1 hc] at hrequest
      cases hrequest
      rfl)
    ⟨rfl, rfl, rfl⟩
  exact ⟨cfg, v₀, w, e, hconfig, hw, (hanswers (reporting 3 "") (by decide)).1⟩

/-- An upload that was given another name goes by the name of its file when the service is made
again. -/
theorem not_forall_uploads_survive_restart :
    ¬ ∀ (cfg : ServerConfig) (front back : List ProviderConfig) (p : ProviderConfig)
      (options : TemporaryOptions) (s₀ s : Surroundings) (d d₀ : Disk) (v₀ : Service)
      (calls : List ServiceCall), cfg.Accepted → cfg.OneTemporary front p options back →
      ofConfig s₀ d cfg = (.ok v₀, d₀) → v₀.AtHome → (∀ c ∈ calls, c.Regular) →
      v₀.Along Untroubled calls → s₀.Alike s →
      ∃ w e, ofConfig s (v₀.serveAll calls).disk cfg = (.ok w, e) ∧
        ∀ s' : Surroundings, s.now ≤ s'.now →
          w.uploads s' = (v₀.serveAll calls).uploads s' ∧
          ∀ id, w.uploadInfo s' id = (v₀.serveAll calls).uploadInfo s' id := by
  intro hall
  obtain ⟨cfg, p, v₀, haccepted, hone, hconfig, hhome, hcalls, us, hus, u, hu, hother⟩ :=
    exists_listed
  have hregular : ∀ c ∈ [edgeListUpload (some "Path")], c.Regular :=
    fun c hc => List.mem_singleton.1 hc ▸ regular_edgeListUpload _
  have hrun : v₀.Along Untroubled [edgeListUpload (some "Path")] :=
    along_singleton (hcalls _ (by simp))
  have halike : (reporting 0 "").Alike (reporting 2 "") := ⟨rfl, rfl, rfl⟩
  obtain ⟨w, e, hw, hanswers⟩ := hall cfg [] [] p {} (reporting 0 "") (reporting 2 "") .empty _ v₀
    _ haccepted hone hconfig hhome hregular hrun halike
  obtain ⟨w', e', hw', hfiles⟩ :=
    uploads_after_restart haccepted hone hconfig hhome hregular hrun halike
  rw [hw', Prod.mk.injEq, Except.ok.injEq] at hw
  obtain ⟨rfl, -⟩ := hw
  -- the old service lists the name that was given, and the new one has only those of the files
  have hsame := (hfiles (reporting 3 "") (by decide)).1.symm.trans
    (hanswers (reporting 3 "") (by decide)).1
  change ((v₀.serve (edgeListUpload (some "Path"))).uploads (reporting 3 "")).map _
    = (v₀.serve (edgeListUpload (some "Path"))).uploads (reporting 3 "") at hsame
  rw [hus] at hsame
  have hfixed := List.map_inj_left.1 ((Except.ok.inj hsame).trans (List.map_id us).symm) u hu
  exact hother (congrArg UploadListing.name hfixed).symm

end

end Service

end MotifQuery
