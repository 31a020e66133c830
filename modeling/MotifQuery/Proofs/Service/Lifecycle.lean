import MotifQuery.Proofs.Service.Agreement
import MotifQuery.Proofs.Service.Calls

/-!
# `MotifQuery.Proofs.Service.Lifecycle`: from upload to clean-up

An upload whose sender got a receipt is served until it expires (`Serves`): all that was sent is
there, under the URI that its id resolves to, and it is listed once. From then on it has lapsed
(`Lapsed`): it is still a host, but no provider accepts it, and no listing shows it. Once it is
cleaned up it is a host no more. `upload_lifecycle` says so of every upload in every run of
calls, where the ids that are issued are new and time does not run backwards (`Admissible`).
-/

set_option autoImplicit false

namespace MotifQuery.Service

open Text

variable {s : Surroundings} {v : Service} {l : Layout} {h : UploadHost} {u : UploadRecord}
  {id shown : String} {content : Bytes} {calls : List ServiceCall}

/-! ### Uploads that are served -/

/-- The upload is served. -/
structure Serves (s : Surroundings) (v : Service) (id providerId : String) (f : GraphFormat)
    (content : Bytes) : Prop where
  resolved : ∃ listing, v.resolve id = .ok listing ∧ listing.uri = uploadScheme ++ id
  routed : ∃ h, v.providerOf? s (uploadScheme ++ id) = some (providerId, .uploads h) ∧
    h.load s.now v.disk (uploadScheme ++ id) = f.read content
  /-- Queries work on what was uploaded. -/
  loaded : v.graph s id = f.read content
  listed : ∃ us, v.uploads s = .ok us ∧ (us.map (·.record.id)).count id = 1

theorem uploads_of_layout (hl : l.Sound) (hv : v.router = l.router h) :
    v.uploads s = .ok ((h.list s.now).map v.listUpload) := by
  rw [uploads, uploadHost?_of_layout hl hv]

/-- The listing of an upload has its id. -/
theorem map_id_listUpload (v : Service) (us : List UploadRecord) :
    (us.map v.listUpload).map (·.record.id) = us.map (·.id) := by
  rw [List.map_map]
  rfl

/-- An upload that is kept is served until it expires. -/
theorem Kept.serves {f : GraphFormat} (hl : l.Sound) (hkept : Kept l u shown content v)
    (hname : GraphFormat.ofName? u.path = some f) (hlive : u.isExpiredAt s.now = false) :
    Serves s v u.id l.id f content := by
  obtain ⟨⟨h, hv, hholds, -⟩, hlisting, hfile⟩ := hkept
  have hformat : hasGraphSuffix u.path = true := by rw [hasGraphSuffix, hname, Option.isSome_some]
  have hlive? := UploadHost.live?_eq_some hholds hlive
  have hresolve := UploadHost.resolve_of_live? hlive?
  have hprovider := providerOf?_of_live? hl hv hlive? hformat
  have hread := Disk.readGraph_of_lookup hname hfile
  -- the id is resolved, its provider loads the file, queries get its graph, and it is listed once
  refine ⟨⟨_, resolve_of_listing hlisting, rfl⟩, ⟨h, hprovider, ?_⟩, ?_, ?_⟩
  · rw [UploadHost.load, hresolve]
    exact hread
  · have hprepare : (Provider.uploads h).prepare s.now (uploadScheme ++ u.id)
        = .ok (some (.snapshot (uploadScheme ++ u.id) u.path)) := by
      rw [Provider.prepare, hresolve]
      rfl
    rw [graph_eq (route_of_providerOf? hlisting hprovider) hprepare]
    show (if uploadScheme ++ u.id = uploadScheme ++ u.id then (v.disk.readGraph u.path, v.disk)
      else _).1 = _
    rw [if_pos rfl]
    exact hread
  · refine ⟨_, uploads_of_layout hl hv, ?_⟩
    rw [map_id_listUpload]
    exact hholds.count_list hlive

/-! ### Uploads that have lapsed -/

/-- The upload has lapsed. -/
structure Lapsed (s : Surroundings) (v : Service) (id : String) : Prop where
  refused : ∀ q : HostQuery, q.hostId = id →
    (q.ask s v).1 = .error (.providerNotFound (uploadScheme ++ id) origin)
  unlisted : ∃ us, v.uploads s = .ok us ∧ id ∉ us.map (·.record.id)
  unknown : v.uploadInfo s id = .error (uploadNotFound id)

/-- An upload that is registered when it has expired has lapsed. -/
theorem Known.lapsed (hl : l.Sound) (hlacks : l.Lacks u.id) (hknown : Known l u shown v)
    (hexpired : u.isExpiredAt s.now = true) : Lapsed s v u.id := by
  obtain ⟨⟨h, hv, honly⟩, hlisting⟩ := hknown
  have hgone := UploadHost.live?_eq_none honly hexpired
  refine ⟨fun q hq => ?_, ⟨_, uploads_of_layout hl hv, ?_⟩, ?_⟩
  · have hroute : v.route s q.hostId
        = .error (.providerNotFound (uploadScheme ++ u.id) origin) := by
      rw [hq]
      exact route_eq_providerNotFound hlisting (providerOf?_eq_none hl hv hgone hlacks)
    exact congrArg Prod.fst (ask_eq_error hroute)
  · rw [map_id_listUpload]
    exact honly.not_mem_list hexpired
  · rw [uploadInfo, uploadHost?_of_layout hl hv]
    dsimp only
    rw [UploadHost.info?, hgone]
    rfl

/-! ### Listings -/

/-- Uploads are listed by the time of their creation, and by their ids where the times are
equal. -/
theorem pairwise_uploads {us : List UploadListing} (hus : v.uploads s = .ok us) :
    us.Pairwise fun x y => x.record.createdAt < y.record.createdAt ∨
      x.record.createdAt = y.record.createdAt ∧ x.record.id ≤ y.record.id := by
  unfold uploads at hus
  split at hus
  · cases hus
  · next host h hhost =>
    cases hus
    rw [List.pairwise_map]
    exact (h.pairwise_list s.now).imp UploadHost.listedBefore_iff.1

/-! ### Services without an upload host -/

/-- Where no provider holds uploads, a call changes nothing but the files of cached objects. -/
theorem onlyCaches_serve (hnone : v.uploadHost? = none) (c : ServiceCall) :
    OnlyCaches v (v.serve c) := by
  obtain ⟨s, request⟩ := c
  cases request with
  | upload content fileName name =>
    show OnlyCaches v (v.upload s content fileName name).2
    unfold upload
    split
    · exact .refl v
    · rw [hnone]
      exact .refl v
  | cleanup id =>
    show OnlyCaches v (v.cleanup s id).2
    unfold cleanup
    rw [hnone]
    exact .refl v
  | query q => exact onlyCaches_ask s v q

theorem exists_disk_serveAll (hnone : v.uploadHost? = none) (calls : List ServiceCall) :
    ∃ disk, v.serveAll calls = { v with disk } := by
  refine serveAll_induction (P := fun w => ∃ disk, w = { v with disk }) ⟨v.disk, rfl⟩ ?_
  rintro c - _ ⟨disk, rfl⟩
  obtain ⟨disk', hserve, -⟩ := @onlyCaches_serve { v with disk } hnone c
  exact ⟨disk', hserve⟩

/-- An upload that succeeds has an upload host. -/
theorem uploadHost?_ne_none {fileName : String} {name : Option String} {receipt : UploadReceipt}
    (hupload : (v.upload s content fileName name).1 = .ok receipt) : v.uploadHost? ≠ none := by
  intro hnone
  unfold upload at hupload
  rw [hnone] at hupload
  split at hupload <;> cases hupload

/-! ### Runs -/

/-- The calls, and the last look at the service, come in the order of their times, and every
upload gets an id of its own that is new to the service. -/
structure Admissible (v : Service) (calls : List ServiceCall) (now : Instant) : Prop where
  times : (calls.map (·.around.now) ++ [now]).Pairwise (· ≤ ·)
  fresh : ∀ id ∈ calls.filterMap ServiceCall.issuedId?, v.Fresh id
  distinct : (calls.filterMap ServiceCall.issuedId?).Nodup

instance (v : Service) (calls : List ServiceCall) (now : Instant) :
    Decidable (Admissible v calls now) :=
  decidable_of_iff ((calls.map (·.around.now) ++ [now]).Pairwise (· ≤ ·) ∧
      (∀ id ∈ calls.filterMap ServiceCall.issuedId?, v.Fresh id) ∧
      (calls.filterMap ServiceCall.issuedId?).Nodup)
    ⟨fun h => ⟨h.1, h.2.1, h.2.2⟩, fun h => ⟨h.times, h.fresh, h.distinct⟩⟩

namespace Admissible

variable {now : Instant} {before after : List ServiceCall} {c : ServiceCall}

theorem isUuid (hcalls : Admissible v calls now) (hc : c ∈ calls) (hid : c.issuedId? = some id) :
    IsUuid id :=
  (hcalls.fresh id (List.mem_filterMap.2 ⟨c, hc, hid⟩)).form

/-- An id is issued once. -/
theorem issuedId?_ne (hcalls : Admissible v (before ++ c :: after) now)
    (hid : c.issuedId? = some id) :
    (∀ b ∈ before, b.issuedId? ≠ some id) ∧ ∀ a ∈ after, a.issuedId? ≠ some id := by
  have hdistinct := hcalls.distinct
  rw [List.filterMap_append, List.filterMap_cons_some hid, List.nodup_append] at hdistinct
  obtain ⟨-, hrest, happart⟩ := hdistinct
  constructor
  · intro b hb hissued
    exact happart id (List.mem_filterMap.2 ⟨b, hb, hissued⟩) id List.mem_cons_self rfl
  · intro a ha hissued
    exact (List.nodup_cons.1 hrest).1 (List.mem_filterMap.2 ⟨a, ha, hissued⟩)

theorem le_now (hcalls : Admissible v calls now) (hc : c ∈ calls) : c.around.now ≤ now := by
  obtain ⟨-, -, hlast⟩ := List.pairwise_append.1 hcalls.times
  exact hlast _ (List.mem_map_of_mem hc) now (List.mem_singleton.2 rfl)

/-- An id that is issued is new until then. -/
theorem fresh_serveAll (hl : l.Sound) (hv : v.router = l.router h)
    (hcalls : Admissible v (before ++ c :: after) now) (hid : c.issuedId? = some id) :
    (v.serveAll before).Fresh id := by
  have hfresh := hcalls.fresh id
    (List.mem_filterMap.2 ⟨c, List.mem_append_right _ List.mem_cons_self, hid⟩)
  refine hfresh.serveAll hl hv (fun b hb other hother => ?_) (hcalls.issuedId?_ne hid).1
  exact hcalls.isUuid (List.mem_append_left _ hb) hother

/-- An id that is issued is unknown to the other upload hosts. -/
theorem lacks (hv : v.router = l.router h) (hcalls : Admissible v calls now) (hc : c ∈ calls)
    (hid : c.issuedId? = some id) : l.Lacks id := by
  have hunused := (hcalls.fresh id (List.mem_filterMap.2 ⟨c, hc, hid⟩)).unused
  rw [hv, Layout.forall_uploads_router] at hunused
  exact fun entry hentry g hg => (hunused.1 entry (List.mem_append_right _ hentry) g hg).1

end Admissible

/-- An upload that gets a receipt in a run of calls is kept from then on. -/
theorem kept_of_upload {fileName : String} {name : Option String} {receipt : UploadReceipt}
    (hl : l.Sound) (hv : v.router = l.router h) (hfresh : v.Fresh s.freshId)
    (hupload : (v.upload s content fileName name).1 = .ok receipt) :
    ∃ (f : GraphFormat) (u : UploadRecord) (shown : String),
      UploadHost.storedSuffix? fileName = some f.suffix ∧
      s.now.addDays? h.days = some u.expiresAt ∧ receipt.id = u.id ∧ u.id = s.freshId ∧
      lastName u.path = u.id ++ f.suffix ∧ GraphFormat.ofName? u.path = some f ∧
      Kept l u shown content (v.serve ⟨s, .upload content fileName name⟩) := by
  show ∃ (f : GraphFormat) (u : UploadRecord) (shown : String), _ ∧ _ ∧ _ ∧ _ ∧ _ ∧ _ ∧
    Kept l u shown content (v.upload s content fileName name).2
  rcases upload_cases hl hv content fileName name with
    ⟨⟨fault, hfault⟩, -⟩ | ⟨fault, -, hfault, -⟩ | ⟨u, hstored, hreceipt, hafter⟩
  · rw [hfault] at hupload
    cases hupload
  · rw [hfault] at hupload
    cases hupload
  · rw [hreceipt] at hupload
    cases hupload
    obtain ⟨f, hsuffix, hexpiry, hname, hformat, hkept⟩ :=
      kept_of_stored hl hv hfresh hstored (shownName fileName name)
    rw [hafter]
    exact ⟨f, u, _, hsuffix, hexpiry, rfl, UploadHost.id_of_store hstored, hname, hformat, hkept⟩

/-- An upload whose sender got a receipt is served until it expires, has lapsed from then on, and
is unknown once it is cleaned up; meanwhile other uploads come and go, queries are answered and
the public hosts stay. -/
theorem upload_lifecycle {s₀ s' : Surroundings} {c : ServerConfig} {d d₀ : Disk} {v₀ : Service}
    {calls : List ServiceCall} (hconfig : ofConfig s₀ d c = (.ok v₀, d₀))
    (hcalls : Admissible v₀ calls s'.now) :
    (v₀.serveAll calls).hosts = v₀.hosts ∧
      (∀ us, (v₀.serveAll calls).uploads s' = .ok us →
        us.Pairwise fun x y => x.record.createdAt < y.record.createdAt ∨
          x.record.createdAt = y.record.createdAt ∧ x.record.id ≤ y.record.id) ∧
      ∀ before s content fileName name after receipt,
        calls = before ++ ⟨s, .upload content fileName name⟩ :: after →
        ((v₀.serveAll before).upload s content fileName name).1 = .ok receipt →
        ∃ providerId h f expiresAt,
          (v₀.serveAll before).uploadHost? = some (providerId, h) ∧
          UploadHost.storedSuffix? fileName = some (GraphFormat.suffix f) ∧
          s.now.addDays? h.days = some expiresAt ∧
          ((∀ later ∈ after, later.request ≠ .cleanup receipt.id) →
            (s'.now < expiresAt →
              Serves s' (v₀.serveAll calls) receipt.id providerId f content) ∧
            (expiresAt ≤ s'.now → Lapsed s' (v₀.serveAll calls) receipt.id)) ∧
          ((∃ later ∈ after, later.request = .cleanup receipt.id) →
            (v₀.serveAll calls).resolve receipt.id
              = .error (.hostNotFound receipt.id origin)) := by
  obtain ⟨hdistinct, hconfigured, -⟩ := ofConfig_spec hconfig
  cases hhost : v₀.uploadHost? with
  | none =>
    refine ⟨?_, fun us => pairwise_uploads, ?_⟩
    · obtain ⟨disk, hafter⟩ := exists_disk_serveAll hhost calls
      rw [hafter]
      rfl
    · intro before s content fileName name after receipt _ hupload
      obtain ⟨disk, hbefore⟩ := exists_disk_serveAll hhost before
      refine absurd ?_ (uploadHost?_ne_none hupload)
      rw [hbefore]
      exact hhost
  | some entry =>
    obtain ⟨providerId, h₀⟩ := entry
    obtain ⟨l, hl, -, hv₀⟩ := exists_layout hdistinct hconfigured hhost
    refine ⟨congrArg (List.map _) (listed_serveAll hl hv₀ calls), fun us => pairwise_uploads, ?_⟩
    rintro before s content fileName name after receipt rfl hupload
    obtain ⟨h, hv⟩ := router_serveAll hl hv₀ before
    have hlater := (hcalls.issuedId?_ne rfl).2
    have hfresh := hcalls.fresh_serveAll hl hv₀ rfl
    obtain ⟨f, u, shown, hsuffix, hexpiry, hreceipt, hid, hname, hformat, hkept⟩ :=
      kept_of_upload hl hv hfresh hupload
    obtain ⟨h', hv'⟩ := router_serve hl hv ⟨s, .upload content fileName name⟩
    rw [serveAll_append, serveAll_cons, hreceipt]
    rw [← hid] at hlater hfresh
    refine ⟨l.id, h, f, u.expiresAt, uploadHost?_of_layout hl hv, hsuffix, hexpiry, ?_, ?_⟩
    · intro hclean
      constructor
      · intro hlive
        have hmem {a : ServiceCall} (ha : a ∈ after) :=
          List.mem_append_right before (List.mem_cons_of_mem ⟨s, .upload content fileName name⟩ ha)
        have huuids : ∀ a ∈ after, ∀ id, a.issuedId? = some id → IsUuid id :=
          fun a ha id => hcalls.isUuid (hmem ha)
        have hliving : ∀ a ∈ after, u.isExpiredAt a.around.now = false := fun a ha =>
          UploadRecord.isExpiredAt_eq_false (Int.lt_of_le_of_lt (hcalls.le_now (hmem ha)) hlive)
        exact (hkept.serveAll hl hfresh.form hname huuids hlater hclean hliving).serves hl hformat
          (UploadRecord.isExpiredAt_eq_false hlive)
      · intro hexpired
        have hlacks : l.Lacks u.id :=
          hcalls.lacks hv₀ (List.mem_append_right _ List.mem_cons_self) (congrArg some hid.symm)
        exact (hkept.known.serveAll hl hlater hclean).lapsed hl hlacks (decide_eq_true hexpired)
    · intro hclean
      have hpublic := (HostRegistry.listing?_eq_none_iff.1 hfresh.unregistered).1
      rw [← (effect_serve hl hv ⟨s, .upload content fileName name⟩).listed] at hpublic
      rw [resolve, listing?_serveAll_of_cleanup hl hv' hpublic hlater hclean]

/-- An edge list stays, while another one is uploaded and cleaned up and a query is answered. -/
theorem upload_lifecycle_of_edge_list :
    let kept := "00000000-0000-4000-8000-000000000001"
    let other := "00000000-0000-4000-8000-000000000002"
    let edges := bytesOf "source,target\na,b\n"
    let after : List ServiceCall := [
      ⟨reporting 1 other, .upload edges "other.csv" (some "another")⟩,
      ⟨reporting 2 "", .cleanup other⟩,
      ⟨reporting 3 "", .query (.size .vertices kept)⟩]
    let config : ServerConfig := {
      providers := [⟨"files", "filesystem", .null⟩, ⟨"uploads", "temporary", .null⟩],
      queryLimits := { maxRamBytes := some 1000000, maxSeconds := none } }
    ∃ v₀ d₀ receipt providerId,
      ofConfig (reporting 0 "") .empty config = (.ok v₀, d₀) ∧
      Admissible v₀ (⟨reporting 0 kept, .upload edges "kept.csv" none⟩ :: after) 4 ∧
      (v₀.upload (reporting 0 kept) edges "kept.csv" none).1 = .ok receipt ∧
      Serves (reporting 4 "")
        (v₀.serveAll (⟨reporting 0 kept, .upload edges "kept.csv" none⟩ :: after))
        receipt.id providerId .edgeList edges := by
  intro kept other edges after config
  have htest : (ofConfig (reporting 0 "") .empty config).1.toOption.any (fun v =>
      decide (Admissible v (⟨reporting 0 kept, .upload edges "kept.csv" none⟩ :: after) 4) &&
      v.uploadHost?.all (fun entry => entry.2.days == 14) &&
      (v.upload (reporting 0 kept) edges "kept.csv" none).1.toOption.any (·.id == kept))
        = true := by
    decide +kernel
  obtain ⟨v₀, hservice, htest⟩ := exists_of_any_toOption htest
  rw [Bool.and_eq_true, Bool.and_eq_true] at htest
  obtain ⟨⟨hadmissible, hdays⟩, hreceipt⟩ := htest
  obtain ⟨receipt, hupload, hid⟩ := exists_of_any_toOption hreceipt
  have hcalls : Admissible v₀ (_ :: after) (reporting 4 "").now := of_decide_eq_true hadmissible
  have hconfig : ofConfig (reporting 0 "") .empty config
      = (.ok v₀, (ofConfig (reporting 0 "") .empty config).2) := Prod.ext hservice rfl
  obtain ⟨-, -, huploads⟩ := upload_lifecycle hconfig hcalls
  obtain ⟨providerId, h, f, expiresAt, hhost, hsuffix, hexpiry, hkept, -⟩ :=
    huploads [] _ _ _ _ after receipt rfl hupload
  have hformat : f = .edgeList := by
    cases f with
    | edgeList => rfl
    | graphML | packedGraphML => exact absurd hsuffix (by decide)
  have hlive : 4 < expiresAt := by
    change v₀.uploadHost? = _ at hhost
    rw [hhost, Option.all_some, beq_iff_eq] at hdays
    rw [hdays] at hexpiry
    cases hexpiry
    decide
  have hclean : ∀ later ∈ after, later.request ≠ .cleanup receipt.id := by
    rw [beq_iff_eq.1 hid]
    simp [after, kept, other]
  rw [← hformat]
  exact ⟨v₀, _, receipt, providerId, hconfig, hcalls, hupload, (hkept hclean).1 hlive⟩

end MotifQuery.Service
