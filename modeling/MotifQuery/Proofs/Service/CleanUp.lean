import MotifQuery.Proofs.Service.Configured
import MotifQuery.Proofs.Service.Faults
import MotifQuery.Proofs.Service.Opening

/-!
# `MotifQuery.Proofs.Service.CleanUp`: what is left of an upload that is cleaned up

A clean-up goes through the first provider that holds uploads, and the hosts of uploads are
restored from all of them. It succeeds where the id was registered, even if the first provider
knows nothing of it: an upload in the directory of another provider is then registered no more,
but it is still served, its entry is still in the table, and the next service of the configuration
restores it (`not_forall_cleanup_complete`).

Where no other provider knows the id, nothing is left (`cleanup_complete`). What carries the proof
along the calls is `Watched`: as long as the id is registered, an entry for it in the table of the
first provider has a record in memory. Saving the table keeps that up, and only a purge that cannot
save breaks it, so the clean-ups before are taken to have met no fault of the disk.
-/

set_option autoImplicit false

namespace MotifQuery

open Text UploadHost

namespace Service

variable {s : Surroundings} {v : Service} {l : Layout} {h : UploadHost} {q : DiskPlace}
  {id : String} {c : ServiceCall} {calls : List ServiceCall}

/-! ### An id that is watched -/

/-- What is known of an id along the calls. The directory of the upload host is at the place `q`,
and each record stands under its own id. While the id is registered, an entry for it in the table
there has its record in memory. The table of any other upload host has no entry for the id, unless
it is this very table. -/
structure Watched (l : Layout) (q : DiskPlace) (id : String) (v : Service) (h : UploadHost) :
    Prop where
  router : v.router = l.router h
  opens : v.disk.Opens h.directory q
  keyed : ∀ {key u}, h.records.get? key = some u → u.id = key
  accounted : (v.registry.unlisted? id).isSome → v.disk.EntryAt q id →
    (h.records.get? id).isSome
  others : ∀ entry ∈ l.back, ∀ g, entry.2 = .uploads g → ∃ p, v.disk.Opens g.directory p ∧
    (p.table.key = q.table.key ∨ ¬ v.disk.HasEntry g.directory id)

/-- In a host whose records stand under their ids, an entry that comes with its table has a
record. -/
theorem isSome_of_tableHas (hkeyed : ∀ {key u}, h.records.get? key = some u → u.id = key)
    (hhas : TableHas (bytesOf (tableText h.records)) id) : (h.records.get? id).isSome := by
  obtain ⟨key, u, hu, hid | hid⟩ := exists_of_tableHas_tableText hhas
  · rw [← hid, hu]
    rfl
  · rw [← hid, hkeyed hu, hu]
    rfl

namespace Watched

/-- The tables of other hosts stay without the id where tables are added at the place only. -/
theorem others_of_adds {P : Bytes → Prop} {e : Disk} (hwatched : Watched l q id v h)
    (hadds : Disk.Adds (Tabling q P) v.disk e) :
    ∀ entry ∈ l.back, ∀ g, entry.2 = .uploads g → ∃ p, e.Opens g.directory p ∧
      (p.table.key = q.table.key ∨ ¬ e.HasEntry g.directory id) := by
  intro entry hentry g hg
  obtain ⟨p, hopens, hplace⟩ := hwatched.others entry hentry g hg
  refine ⟨p, hopens.mono hadds.directories, or_iff_not_imp_left.2 fun hapart hhas => ?_⟩
  rcases hhas.of_adds hopens hadds with hold | ⟨content, htable, -⟩
  · exact hplace.elim hapart fun hnone => hnone hold
  · exact hapart (htable p.lastName_key_table).1

/-- Saved records account for the table. -/
theorem isSome_of_tabled {e : Disk} {h' : UploadHost} (htabled : h'.Tabled e)
    (hopens : e.Opens h'.directory q) (hkeyed : ∀ {key u}, h'.records.get? key = some u → u.id = key)
    (hentry : e.EntryAt q id) : (h'.records.get? id).isSome := by
  obtain ⟨content, hnode, hhas⟩ := hentry
  have htable := (hopens.lookup_join plainName_table (Disk.usable_of_lookup htabled)).1 htabled
  rw [DiskNode.file.inj (Option.some.inj (hnode.symm.trans htable))] at hhas
  exact isSome_of_tableHas hkeyed hhas

/-- Storing keeps an id watched, whether or not the upload gets registered. -/
theorem store (hl : l.Sound) (hwatched : Watched l q id v h) {content : Bytes} {fileName : String}
    {registry : HostRegistry}
    (hregistry : (registry.unlisted? id).isSome → (v.registry.unlisted? id).isSome ∨
      (((h.store s.now s.freshId v.disk content fileName).host.records.get? id).isSome)) :
    Watched l q id
      { v.afterStep l.id (h.store s.now s.freshId v.disk content fileName) with registry }
      (h.store s.now s.freshId v.disk content fileName).host := by
  have hkeyed : ∀ {key u}, (h.store s.now s.freshId v.disk content fileName).host.records.get? key
      = some u → u.id = key := by
    intro key u hu
    rcases mem_store (Dict.mem_entries_iff.2 hu) with hold | ⟨f, expiresAt, heq⟩
    · exact hwatched.keyed (Dict.mem_entries_iff.1 hold)
    · cases heq
      rfl
  -- storing writes a file that is no table, and the table of the records in memory
  have hadds : Disk.Adds (Tabling q fun bytes => bytes
        = bytesOf (tableText (h.store s.now s.freshId v.disk content fileName).host.records))
      v.disk (h.store s.now s.freshId v.disk content fileName).disk :=
    adds_store hwatched.opens fun _ _ => rfl
  obtain ⟨records, hhost⟩ := h.exists_records_store s.now s.freshId v.disk content fileName
  refine ⟨router_afterStep hl hwatched.router _, ?_, hkeyed, fun hlisted hentry => ?_,
    hwatched.others_of_adds hadds⟩
  · rw [hhost]
    exact hwatched.opens.mono hadds.directories
  · rcases hregistry hlisted with hold | hnew
    · rcases hentry.of_adds hadds with hbefore | ⟨bytes, htable, hhas⟩
      · -- a record that was in memory is still there
        have hstored := hwatched.accounted hold hbefore
        rcases h.store_cases s.now s.freshId v.disk content fileName with
          ⟨fault, hstore⟩ | ⟨f, written, -, -, hstore | ⟨expiresAt, -, hstore⟩⟩
        · rw [hstore]
          exact hstored
        · rw [hstore]
          exact hstored
        · rw [hstore, keep_host, get?_withRecord]
          split
          · rfl
          · exact hstored
      · rw [(htable q.lastName_key_table).2] at hhas
        exact isSome_of_tableHas hkeyed hhas
    · exact hnew

/-- Cleaning up keeps an id watched. -/
theorem cleanup (hl : l.Sound) (hwatched : Watched l q id v h) {other : String} {found : Bool}
    (hok : (h.cleanup s.now v.disk other).result = .ok found) :
    Watched l q id
      { v.afterStep l.id (h.cleanup s.now v.disk other) with registry := v.registry.remove other }
      (h.cleanup s.now v.disk other).host := by
  have hkeyed : ∀ {key u}, (h.cleanup s.now v.disk other).host.records.get? key = some u →
      u.id = key := fun {key u} hu => hwatched.keyed
    (Dict.mem_entries_iff.1 (within_cleanup h s.now v.disk other (key, u)
      (Dict.mem_entries_iff.2 hu)))
  have hadds := adds_cleanup hwatched.opens s.now other
  have hopens : (h.cleanup s.now v.disk other).disk.Opens
      (h.cleanup s.now v.disk other).host.directory q := by
    rw [directory_cleanup]
    exact hwatched.opens.mono hadds.directories
  refine ⟨router_afterStep hl hwatched.router _, hopens, hkeyed, fun hlisted hentry => ?_,
    hwatched.others_of_adds hadds⟩
  -- nothing was taken, or the table is that of the records left
  rcases cleanup_ok hok with ⟨hhost, hdisk⟩ | htabled
  · rw [hhost]
    refine hwatched.accounted ?_ (hdisk ▸ hentry)
    change ((v.registry.remove other).unlisted? id).isSome at hlisted
    rw [HostRegistry.unlisted?_remove] at hlisted
    split at hlisted
    · cases hlisted
    · exact hlisted
  · exact isSome_of_tabled htabled hopens hkeyed hentry

/-- A query keeps an id watched. -/
theorem loads {v' : Service} (hwatched : Watched l q id v h) (hloads : Loads s v v') :
    Watched l q id v' h := by
  obtain ⟨disk, rfl, hdisk⟩ := hloads
  have hadds : Disk.Adds (Tabling q fun _ => False) v.disk disk := by
    rcases hdisk with rfl | ⟨p, uri, rfl⟩
    · exact .refl _ _
    · exact p.adds_load s v.disk uri
  refine ⟨hwatched.router, hwatched.opens.mono hadds.directories, hwatched.keyed,
    fun hlisted hentry => ?_, hwatched.others_of_adds hadds⟩
  rcases hentry.of_adds hadds with hold | ⟨content, htable, -⟩
  · exact hwatched.accounted hlisted hold
  · exact (htable q.lastName_key_table).2.elim

/-- A call keeps an id watched. -/
theorem serve (hl : l.Sound) (hwatched : Watched l q id v h) (hcall : v.Unhindered c) :
    ∃ h', Watched l q id (v.serve c) h' := by
  obtain ⟨s, request⟩ := c
  cases request with
  | upload content fileName name =>
    show ∃ h', Watched l q id (v.upload s content fileName name).2 h'
    rcases upload_cases hl hwatched.router content fileName name with
      ⟨-, hsame⟩ | ⟨fault, -, -, hrefused⟩ | ⟨u, hstored, -, hafter⟩
    · rw [hsame]
      exact ⟨h, hwatched⟩
    · rw [hrefused]
      exact ⟨_, hwatched.store hl .inl⟩
    · rw [hafter]
      refine ⟨_, hwatched.store hl fun hlisted => ?_⟩
      -- the listing is that of the new upload, whose record is in memory, or an older one
      rw [HostRegistry.unlisted?_add] at hlisted
      split at hlisted
      · next hid =>
        right
        obtain ⟨f, written, expiresAt, -, -, -, -, hhost, -⟩ := store_ok hstored
        have hid : u.id = id := hid
        rw [hhost, get?_withRecord, if_pos hid.symm]
        rfl
      · exact .inl hlisted
  | cleanup other =>
    show ∃ h', Watched l q id (v.cleanup s other).2 h'
    obtain ⟨found, hok⟩ := hcall.exists_found hl hwatched.router
    rw [cleanup_eq hl hwatched.router]
    exact ⟨_, hwatched.cleanup hl hok⟩
  | query question => exact ⟨h, hwatched.loads (loads_ask s v question)⟩

theorem serveAll (hl : l.Sound) (hwatched : Watched l q id v h)
    (hcalls : v.Along Unhindered calls) : ∃ h', Watched l q id (v.serveAll calls) h' := by
  refine hcalls.induction (Q := fun w => ∃ h', Watched l q id w h') ⟨h, hwatched⟩ ?_
  intro w c _ hcall ⟨g, hw⟩
  exact hw.serve hl hcall

/-- A clean-up that succeeds leaves no record of the id and no entry for it. -/
theorem gone_of_cleanup (hl : l.Sound) (hwatched : Watched l q id v h)
    (hok : (v.cleanup s id).1 = .ok ()) :
    ∃ h', Watched l q id (v.cleanup s id).2 h' ∧ h'.records.get? id = none ∧
      ¬ (v.cleanup s id).2.disk.EntryAt q id := by
  -- the id was unlisted, or the host had its upload
  have hlisted : ∃ found, (h.cleanup s.now v.disk id).result = .ok found ∧
      ((v.registry.unlisted? id).isSome || found) = true := by
    rw [Service.cleanup, uploadHost?_of_layout hl hwatched.router] at hok
    dsimp only at hok
    split at hok
    · cases hok
    · next found hfound =>
      refine ⟨found, hfound, ?_⟩
      split at hok
      · next hthere => exact hthere
      · cases hok
  obtain ⟨found, hfound, hthere⟩ := hlisted
  have hafter := hwatched.cleanup hl hfound
  rw [cleanup_eq hl hwatched.router]
  have hnone : (h.cleanup s.now v.disk id).host.records.get? id = none := by
    rcases h.cleanup_cases s.now v.disk id with
      ⟨hnone, hcleanup⟩ | ⟨u, -, ⟨f, -, hcleanup⟩ | ⟨-, hcleanup⟩⟩
    · rw [hcleanup, get?_purge, hnone, ite_self]
    · rw [hcleanup] at hfound
      cases hfound
    · rw [hcleanup, get?_purge, get?_without, if_pos rfl, ite_self]
  refine ⟨_, hafter, hnone, fun hentry => ?_⟩
  rcases cleanup_ok hfound with ⟨hhost, hdisk⟩ | htabled
  · -- nothing was taken, so the id was registered, and its entry would have a record
    rw [hhost] at hnone
    have hmissing : found = false := by
      rcases h.cleanup_cases s.now v.disk id with ⟨-, hcleanup⟩ | ⟨u, hu, -⟩
      · rw [hcleanup] at hfound
        obtain ⟨n, -, hfalse⟩ := map_eq_ok_iff.1 hfound
        exact hfalse.symm
      · rw [hnone] at hu
        cases hu
    rw [hmissing, Bool.or_false] at hthere
    have hstored := hwatched.accounted hthere (hdisk ▸ hentry)
    rw [hnone] at hstored
    cases hstored
  · have hstored := isSome_of_tabled htabled hafter.opens hafter.keyed hentry
    rw [hnone] at hstored
    cases hstored

end Watched

/-! ### Clean-ups of a service -/

/-- Nothing is left of an upload: no provider accepts its URI, no upload directory has an entry
for it, and no service that is made of the configuration on the same directories knows it. -/
structure Gone (c : ServerConfig) (tempDir : String) (v : Service) (id : String) : Prop where
  unaccepted : ∀ entry ∈ v.router.entries, ∀ now,
    entry.2.accepts now (uploadScheme ++ id) = false
  erased : ∀ entry ∈ v.router.entries, ∀ h, entry.2 = .uploads h →
    ¬ v.disk.HasEntry h.directory id
  forgotten : ∀ (s : Surroundings) (w : Service) (e : Disk), s.tempDir = tempDir →
    ofConfig s v.disk c = (.ok w, e) → w.resolve id = .error (.hostNotFound id origin)

/-- No upload host but the first has the id, neither in memory nor in its table. -/
def OthersLack (v : Service) (id : String) : Prop :=
  ∀ entry ∈ v.router.entries, ∀ h, entry.2 = .uploads h → v.uploadHost? ≠ some (entry.1, h) →
    h.Lacks id ∧ ¬ v.disk.HasEntry h.directory id

/-- The first upload host has each record under its own id. -/
def Keyed (v : Service) : Prop :=
  ∀ entry ∈ v.uploadHost?, ∀ key u, entry.2.records.get? key = some u → u.id = key

section

variable {c : ServerConfig} {s₀ : Surroundings} {d d₀ : Disk} {v₀ : Service}

/-- The other hosts are behind the first one, and they lack the id. -/
theorem lacks_of_othersLack (hl : l.Sound) (hv : v.router = l.router h)
    (hdistinct : v.router.Distinct) (hothers : v.OthersLack id) :
    ∀ entry ∈ l.back, ∀ g, entry.2 = .uploads g →
      g.Lacks id ∧ ¬ v.disk.HasEntry g.directory id := by
  intro entry hentry g hg
  have hmem : entry ∈ v.router.entries := by
    rw [hv]
    exact List.mem_append_right _ (List.mem_cons_of_mem _ hentry)
  refine hothers entry hmem g hg fun hfirst => ?_
  rw [uploadHost?_of_layout hl hv, Option.some.injEq, Prod.mk.injEq] at hfirst
  unfold Router.Distinct at hdistinct
  rw [hv, Layout.router, List.map_append, List.map_cons, List.nodup_append] at hdistinct
  exact (List.nodup_cons.1 hdistinct.2.1).1 (List.mem_map.2 ⟨entry, hentry, hfirst.1.symm⟩)

/-- In a new service an id that no other host has is watched. -/
theorem watched_of_ofConfig (hl : l.Sound) (hv : v₀.router = l.router h)
    (hconfig : ofConfig s₀ d c = (.ok v₀, d₀)) (hothers : v₀.OthersLack id) (hkeyed : v₀.Keyed) :
    ∃ q, Watched l q id v₀ h := by
  obtain ⟨hdistinct, -, -⟩ := ofConfig_spec hconfig
  have hback := lacks_of_othersLack hl hv hdistinct hothers
  have hself : (l.id, Provider.uploads h) ∈ v₀.router.entries := by
    rw [hv]
    exact List.mem_append_right _ List.mem_cons_self
  have hrecords : ∀ {key u}, h.records.get? key = some u → u.id = key := fun {key u} hu =>
    hkeyed (l.id, h) (uploadHost?_of_layout hl hv) key u hu
  obtain ⟨q, hopens⟩ := exists_opens_of_ofConfig hconfig _ hself h rfl
  refine ⟨q, hv, hopens, hrecords, fun hlisted _ => ?_, fun entry hentry g hg => ?_⟩
  · -- the id was restored from a host that has it, which can only be the first one
    obtain ⟨x, hx⟩ := Option.isSome_iff_exists.1 hlisted
    obtain ⟨entry, hentry, g, hg, key, u, hu, hid, -⟩ := exists_stored_of_unlisted hconfig hx
    rw [hv] at hentry
    rcases List.mem_append.1 hentry with hfront | hrest
    · exact absurd hg (hl.first entry hfront g)
    rcases List.mem_cons.1 hrest with rfl | hbehind
    · cases hg
      rw [← hid, hrecords hu, hu]
      rfl
    · exact absurd hid ((hback entry hbehind g hg).1 (key, u) (Dict.mem_entries_iff.2 hu)).2
  -- the hosts behind the first lack the id, as they were made
  · have hmem : entry ∈ v₀.router.entries := by
      rw [hv]
      exact List.mem_append_right _ (List.mem_cons_of_mem _ hentry)
    obtain ⟨p, hp⟩ := exists_opens_of_ofConfig hconfig entry hmem g hg
    exact ⟨p, hp, .inr (hback entry hentry g hg).2⟩

/-- What is gone from a watched host is gone from the service. -/
theorem Watched.gone (hl : l.Sound) (hwatched : Watched l q id v h) (hlacks : l.Lacks id)
    (hnone : h.records.get? id = none) (hentry : ¬ v.disk.EntryAt q id)
    (hmade : List.Forall₂ (ProviderConfig.Made s₀) v.router.entries c.providers)
    (hpublic : ∀ host ∈ c.hosts, host.id ≠ id) : Gone c s₀.tempDir v id := by
  have herased : ∀ entry ∈ v.router.entries, ∀ g, entry.2 = .uploads g →
      (∃ p, v.disk.Opens g.directory p) ∧ ¬ v.disk.HasEntry g.directory id := by
    rw [hwatched.router]
    refine Layout.forall_uploads_router.2 ⟨fun entry hmem g hg => ?_,
      ⟨q, hwatched.opens⟩, fun hhas => hentry (.of_hasEntry hwatched.opens hhas)⟩
    rcases List.mem_append.1 hmem with hfront | hback
    · exact absurd hg (hl.first entry hfront g)
    obtain ⟨p, hopens, hplace⟩ := hwatched.others entry hback g hg
    refine ⟨⟨p, hopens⟩, fun hhas => hplace.elim (fun hkey => ?_) fun hno => hno hhas⟩
    -- the same file under another path
    obtain ⟨content, hnode, hcontent⟩ := Disk.EntryAt.of_hasEntry hopens hhas
    refine hentry ⟨content, ?_, hcontent⟩
    rw [DiskPlace.table, Disk.node?_child] at hnode ⊢
    exact hkey ▸ hnode
  refine ⟨fun entry hmem now => ?_, fun entry hmem g hg => (herased entry hmem g hg).2,
    fun s w e htemp hconfig => ?_⟩
  · rw [hwatched.router] at hmem
    rcases List.mem_append.1 hmem with hfront | hrest
    · exact Bool.eq_false_iff.2 (not_accepts_front hl now id entry hfront)
    rcases List.mem_cons.1 hrest with rfl | hback
    · refine not_accepts_of_live? (h := h) ?_
      rw [live?, hnone]
      rfl
    · by_cases hother : ∃ g, entry.2 = .uploads g
      · obtain ⟨g, hg⟩ := hother
        rw [hg]
        exact not_accepts_of_live? (hlacks entry hback g hg).live?_eq_none
      · exact Provider.not_accepts_upload (hl.configured entry (List.mem_append_right _ hback))
          (fun g hg => hother ⟨g, hg⟩) now id
  · have htables : TablesLack c s.tempDir id v.disk := by
      intro p hp options hkind
      obtain ⟨entry, hmem, g, hg, hdirectory⟩ := exists_uploads_of_made hmade hp hkind
      change g.directory = options.directory s₀.tempDir at hdirectory
      rw [htemp, ← hdirectory]
      exact herased entry hmem g hg
    rw [resolve, listing?_ofConfig_eq_none hconfig hpublic htables]

/-- A clean-up that succeeds leaves nothing of the upload, provided that no other upload host knows
the id when the service starts, that the records of the first one stand under their ids and no
public host has the id, and that no clean-up before met a fault of the disk. -/
theorem cleanup_complete (haccepted : c.Accepted) (hconfig : ofConfig s₀ d c = (.ok v₀, d₀))
    (hothers : v₀.OthersLack id) (hkeyed : v₀.Keyed) (hpublic : ∀ host ∈ c.hosts, host.id ≠ id)
    (hcalls : v₀.Along Unhindered calls) (hok : ((v₀.serveAll calls).cleanup s id).1 = .ok ()) :
    Gone c s₀.tempDir ((v₀.serveAll calls).cleanup s id).2 id := by
  obtain ⟨hdistinct, hconfigured, -⟩ := ofConfig_spec hconfig
  have hmade := (made_serveAll hdistinct hconfigured
    (made_of_ofConfig haccepted.nodup_providerIds hconfig) (calls ++ [⟨s, .cleanup id⟩])).1
  rw [serveAll_append] at hmade
  cases hhost : v₀.uploadHost? with
  | none =>
    obtain ⟨disk, hafter⟩ := exists_disk_serveAll hhost calls
    rw [hafter, cleanup, show ({ v₀ with disk } : Service).uploadHost? = none from hhost] at hok
    cases hok
  | some entry =>
    obtain ⟨providerId, h₀⟩ := entry
    obtain ⟨l, hl, -, hv₀⟩ := exists_layout hdistinct hconfigured hhost
    obtain ⟨q, hstart⟩ := watched_of_ofConfig hl hv₀ hconfig hothers hkeyed
    obtain ⟨h, hwatched⟩ := hstart.serveAll hl hcalls
    obtain ⟨h', hafter, hnone, hentry⟩ := hwatched.gone_of_cleanup hl hok
    have hlacks : l.Lacks id := fun entry hentry g hg =>
      (lacks_of_othersLack hl hv₀ hdistinct hothers entry hentry g hg).1
    exact hafter.gone hl hlacks hnone hentry hmade hpublic

/-- Where there is one provider at most, no other one has the id. -/
theorem othersLack_of_length (hlength : v.router.entries.length ≤ 1) : v.OthersLack id := by
  intro entry hentry g hg hother
  refine absurd ?_ hother
  match hentries : v.router.entries, hlength with
  | [], _ =>
    rw [hentries] at hentry
    cases hentry
  | [only], _ =>
    rw [hentries, List.mem_singleton] at hentry
    obtain rfl := hentry
    rw [uploadHost?, hentries, List.findSome?_cons, hg]

/-- An edge list in the one upload directory there is goes without trace. -/
theorem cleanup_complete_of_edge_list :
    let raw := "providers:\n- id: one\n  type: temporary\nhosts: []\nquery_limits:\n"
      ++ "  max_ram_bytes: 1\n  max_duration_seconds: null\n"
    let id := "00000000-0000-4000-8000-000000000001"
    let calls : List ServiceCall :=
      [⟨reporting 1 id, .upload (bytesOf "source,target\na,b\n") "up.csv" none⟩]
    ∃ c v₀ d₀, ServerConfig.ofYamlText raw = .ok c ∧
      ofConfig (reporting 0 "") .empty c = (.ok v₀, d₀) ∧
      ((v₀.serveAll calls).cleanup (reporting 2 "") id).1 = .ok () ∧
      Gone c "" ((v₀.serveAll calls).cleanup (reporting 2 "") id).2 id := by
  intro raw id calls
  have htest : (ServerConfig.ofYamlText raw).toOption.any (fun c =>
      decide (∀ host ∈ c.hosts, host.id ≠ id) &&
      (ofConfig (reporting 0 "") .empty c).1.toOption.any fun v =>
        decide (v.router.entries.length ≤ 1) &&
        v.uploadHost?.all (fun entry => entry.2.records = ∅) &&
        ((v.serveAll calls).cleanup (reporting 2 "") id).1.toOption.any fun _ => true) = true := by
    refine ServerConfig.any_ofYamlText
      (toList_append_of String.toList_ofList String.toList_ofList) ?_
    decide +kernel
  obtain ⟨c, hread, htest⟩ := exists_of_any_toOption htest
  rw [Bool.and_eq_true, decide_eq_true_eq] at htest
  obtain ⟨hpublic, htest⟩ := htest
  obtain ⟨v₀, hservice, htest⟩ := exists_of_any_toOption htest
  rw [Bool.and_eq_true, Bool.and_eq_true, decide_eq_true_eq] at htest
  obtain ⟨⟨hlength, hrecords⟩, hcleanup⟩ := htest
  obtain ⟨_, hok, -⟩ := exists_of_any_toOption hcleanup
  have hconfig : ofConfig (reporting 0 "") .empty c
      = (.ok v₀, (ofConfig (reporting 0 "") .empty c).2) := Prod.ext hservice rfl
  have hkeyed : v₀.Keyed := by
    intro entry hentry key u hu
    rw [Option.mem_def.1 hentry, Option.all_some, decide_eq_true_eq] at hrecords
    rw [hrecords] at hu
    cases hu
  have hcalls : v₀.Along Unhindered calls := along_singleton fun _ hrequest => nomatch hrequest
  exact ⟨c, v₀, _, hread, hconfig, hok, cleanup_complete (.yaml hread) hconfig
    (othersLack_of_length hlength) hkeyed hpublic hcalls hok⟩

/-- A disk with one upload in the directory `t`, the table and the file. -/
def oneUpload : Disk where
  nodes := Dict.ofList [
    ("t", .directory),
    ("t/motifstudio_uploads", .directory),
    ("t/motifstudio_uploads/k.csv", .file (bytesOf "source,target\na,b\n")),
    ("t/motifstudio_uploads/metadata.json", .file (bytesOf
      ("\x7b\"k\":\x7b\"temp_id\":\"k\",\"filepath\":\"t/motifstudio_uploads/k.csv\","
        ++ "\"original_filename\":\"u.csv\",\"file_size\":18,"
        ++ "\"created_at\":\"1970-01-01T00:00:00Z\","
        ++ "\"expires_at\":\"1970-01-15T00:00:00Z\"\x7d\x7d")))]

/-- An upload in the directory of the second provider is registered, so that its clean-up
succeeds, and it is served as before. -/
theorem not_forall_cleanup_complete :
    ¬ ∀ (c : ServerConfig) (s₀ s : Surroundings) (d d₀ : Disk) (v₀ : Service)
      (calls : List ServiceCall) (id : String), c.Accepted → ofConfig s₀ d c = (.ok v₀, d₀) →
      ((v₀.serveAll calls).cleanup s id).1 = .ok () →
      Gone c s₀.tempDir ((v₀.serveAll calls).cleanup s id).2 id := by
  intro hall
  have htest : (ServerConfig.ofYamlText ("providers:\n- id: one\n  type: temporary\n- id: two\n"
      ++ "  type: temporary\n  arguments:\n    temp_dir: t\nhosts: []\nquery_limits:\n"
      ++ "  max_ram_bytes: 1\n  max_duration_seconds: null\n")).toOption.any (fun c =>
      (ofConfig (reporting 2 "") oneUpload c).1.toOption.any fun v =>
        ((v.cleanup (reporting 3 "") "k").1.toOption.any fun _ => true) &&
        (v.cleanup (reporting 3 "") "k").2.router.entries.any fun entry =>
          entry.2.accepts 3 (uploadScheme ++ "k")) = true := by
    refine ServerConfig.any_ofYamlText (toList_append_of
      (toList_append_of String.toList_ofList String.toList_ofList)
      String.toList_ofList) ?_
    decide +kernel
  obtain ⟨c, hread, htest⟩ := exists_of_any_toOption htest
  obtain ⟨v, hservice, htest⟩ := exists_of_any_toOption htest
  rw [Bool.and_eq_true, List.any_eq_true] at htest
  obtain ⟨hcleanup, entry, hentry, haccepts⟩ := htest
  obtain ⟨_, hok, -⟩ := exists_of_any_toOption hcleanup
  have hconfig : ofConfig (reporting 2 "") oneUpload c
      = (.ok v, (ofConfig (reporting 2 "") oneUpload c).2) := Prod.ext hservice rfl
  have hgone := hall c (reporting 2 "") (reporting 3 "") oneUpload _ v [] "k" (.yaml hread)
    hconfig hok
  rw [hgone.unaccepted entry hentry 3] at haccepts
  cases haccepts

end

end Service

end MotifQuery
