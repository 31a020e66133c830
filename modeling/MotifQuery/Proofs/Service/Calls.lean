import MotifQuery.Proofs.Service.Plan
import MotifQuery.Proofs.Service.Routing

/-!
# `MotifQuery.Proofs.Service.Calls`: a service in use

A service is asked for uploads, clean-ups and queries, one after the other, while time passes
(`ServiceCall`, `serveAll`). `Effect` sums up what one of them does to the service; what holds of
all that can happen is proved by cases on it. Three states of an upload id are followed through
the calls:

* `Fresh`: the id is new. No host goes by it, no record has it, and no record names a file by it.
* `Kept`: the upload is registered, its host holds it, and its file has the bytes that were
  uploaded. An upload is kept from when it is stored until it expires or is cleaned up.
* `Known`: the upload is registered, and its host has nothing else under its id, whether or not
  a purge has taken it. This lasts until it is cleaned up.

Each of them has one lemma for a call and one for a run of calls. What is cleaned up is registered
no more, for good (`listing?_serveAll_of_cleanup`).
-/

set_option autoImplicit false

namespace MotifQuery

open Text

/-! ### Calls of a service -/

/-- What a service is asked for. -/
inductive ServiceRequest where
  | upload (content : Bytes) (fileName : String) (name : Option String)
  | cleanup (id : String)
  | query (q : HostQuery)

/-- A request, and what the service finds around it at that time. -/
structure ServiceCall where
  around : Surroundings
  request : ServiceRequest

/-- The id that is ready for the upload of a call. -/
def ServiceCall.issuedId? (c : ServiceCall) : Option String :=
  match c.request with
  | .upload _ _ _ => some c.around.freshId
  | _ => none

namespace Service

/-- The service after a call. -/
def serve (v : Service) (c : ServiceCall) : Service :=
  match c.request with
  | .upload content fileName name => (v.upload c.around content fileName name).2
  | .cleanup id => (v.cleanup c.around id).2
  | .query q => (q.ask c.around v).2

/-- The service after calls one after the other. -/
def serveAll (v : Service) (calls : List ServiceCall) : Service :=
  calls.foldl serve v

variable {s : Surroundings} {v : Service} {l : Layout} {h : UploadHost} {u : UploadRecord}
  {id shown : String} {content : Bytes} {c : ServiceCall} {calls : List ServiceCall}

/-! ### What a query does -/

/-- The service is as before, up to files of cached objects. -/
def OnlyCaches (v v' : Service) : Prop :=
  ∃ disk, v' = { v with disk } ∧
    ∀ path, Uncached (lastName path) → v.disk.KeepsFile path disk

theorem OnlyCaches.refl (v : Service) : OnlyCaches v v :=
  ⟨v.disk, rfl, fun path _ => .refl path v.disk⟩

/-- The service is as before, or a provider has loaded a graph. -/
def Loads (s : Surroundings) (v v' : Service) : Prop :=
  ∃ disk, v' = { v with disk } ∧
    (disk = v.disk ∨ ∃ (p : Provider) (uri : String), disk = (p.load s v.disk uri).2)

theorem Loads.refl (s : Surroundings) (v : Service) : Loads s v v :=
  ⟨v.disk, rfl, .inl rfl⟩

theorem loads_run {α : Type} (s : Surroundings) (v : Service) (listing : HostListing)
    (p : Provider) (job : Job α) : Loads s v (v.run s listing p job).2 := by
  unfold run
  split
  · exact .refl s v
  · exact ⟨_, rfl, .inr ⟨_, listing.uri, rfl⟩⟩

/-- A query loads one graph at most. -/
theorem loads_ask (s : Surroundings) (v : Service) (q : HostQuery) :
    Loads s v (q.ask s v).2 := by
  cases hroute : v.route s q.hostId with
  | error f =>
    rw [ask_eq_error hroute]
    exact .refl s v
  | ok routed =>
    obtain ⟨listing, p⟩ := routed
    rw [ask_eq_carryOut hroute]
    cases q.plan s listing with
    | settled reply => exact .refl s v
    | work job reply => exact loads_run s v listing p job

/-- A query changes nothing but the files of cached objects. -/
theorem onlyCaches_ask (s : Surroundings) (v : Service) (q : HostQuery) :
    OnlyCaches v (q.ask s v).2 := by
  obtain ⟨disk, hafter, rfl | ⟨p, uri, rfl⟩⟩ := loads_ask s v q
  · exact hafter ▸ .refl v
  · exact ⟨_, hafter, fun path hname => Provider.keepsFile_load s v.disk uri p hname⟩

theorem resolve_of_listing {listing : HostListing} (h : v.registry.listing? id = some listing) :
    v.resolve id = .ok listing := by
  rw [resolve, h]

theorem route_of_providerOf? {listing : HostListing} {providerId : String} {p : Provider}
    (hlisting : v.registry.listing? id = some listing)
    (hprovider : v.providerOf? s listing.uri = some (providerId, p)) :
    v.route s id = .ok (listing, p) := by
  simp [route, resolve_of_listing hlisting, hprovider, bind, Except.bind, pure, Except.pure]

theorem route_eq_providerNotFound {listing : HostListing}
    (hlisting : v.registry.listing? id = some listing)
    (hprovider : v.providerOf? s listing.uri = none) :
    v.route s id = .error (.providerNotFound listing.uri origin) := by
  simp [route, resolve_of_listing hlisting, hprovider, bind, Except.bind, throw, throwThe,
    MonadExceptOf.throw]

theorem route_eq_hostNotFound (hlisting : v.registry.listing? id = none) :
    v.route s id = .error (.hostNotFound id origin) := by
  rw [route, resolve, hlisting]
  rfl

/-! ### What a call does -/

/-- What a request does to a service whose upload host is `h`. -/
inductive Effect (l : Layout) (h : UploadHost) (v : Service) (s : Surroundings) :
    ServiceRequest → Service → Prop
  /-- An upload without content is turned away. -/
  | empty {content : Bytes} {fileName : String} {name : Option String} :
      Effect l h v s (.upload content fileName name) v
  | refused {content : Bytes} {fileName : String} {name : Option String} :
      Effect l h v s (.upload content fileName name)
        (v.afterStep l.id (h.store s.now s.freshId v.disk content fileName))
  | stored {content : Bytes} {fileName : String} {name : Option String} {u : UploadRecord}
      {shown : String}
      (hstored : (h.store s.now s.freshId v.disk content fileName).result = .ok u) :
      Effect l h v s (.upload content fileName name)
        { v.afterStep l.id (h.store s.now s.freshId v.disk content fileName) with
          registry := v.registry.add (u.listing shown l.id) }
  | cleaned {id : String} :
      Effect l h v s (.cleanup id)
        { v.afterStep l.id (h.cleanup s.now v.disk id) with registry := v.registry.remove id }
  | queried {q : HostQuery} {v' : Service} (hquery : OnlyCaches v v') :
      Effect l h v s (.query q) v'

/-- The name that an upload goes by: that of its file, where none is given. -/
def shownName (fileName : String) (name : Option String) : String :=
  (name.filter fun n => !n.isEmpty).getD fileName

/-- An upload without content leaves the service as it is. Any other goes to the upload host, and
where it is stored, it is registered and told by its record. -/
theorem upload_cases (hl : l.Sound) (hv : v.router = l.router h) (content : Bytes)
    (fileName : String) (name : Option String) :
    ((∃ fault, (v.upload s content fileName name).1 = .error fault) ∧
      (v.upload s content fileName name).2 = v) ∨
    (∃ fault, (h.store s.now s.freshId v.disk content fileName).result = .error fault ∧
      (v.upload s content fileName name).1 = .error fault ∧
      (v.upload s content fileName name).2
        = v.afterStep l.id (h.store s.now s.freshId v.disk content fileName)) ∨
    ∃ u, (h.store s.now s.freshId v.disk content fileName).result = .ok u ∧
      (v.upload s content fileName name).1
        = .ok { id := u.id, givenName := u.givenName, size := u.size } ∧
      (v.upload s content fileName name).2
        = { v.afterStep l.id (h.store s.now s.freshId v.disk content fileName) with
            registry := v.registry.add (u.listing (shownName fileName name) l.id) } := by
  unfold upload
  split
  · exact .inl ⟨⟨_, rfl⟩, rfl⟩
  · rw [uploadHost?_of_layout hl hv]
    dsimp only
    split
    · next fault hfault => exact .inr (.inl ⟨fault, hfault, rfl, rfl⟩)
    · next u hu => exact .inr (.inr ⟨u, hu, rfl, rfl⟩)

theorem cleanup_eq (hl : l.Sound) (hv : v.router = l.router h) (id : String) :
    (v.cleanup s id).2
      = { v.afterStep l.id (h.cleanup s.now v.disk id) with registry := v.registry.remove id } := by
  unfold cleanup
  rw [uploadHost?_of_layout hl hv]
  dsimp only
  split <;> rfl

theorem effect_serve (hl : l.Sound) (hv : v.router = l.router h) (c : ServiceCall) :
    Effect l h v c.around c.request (v.serve c) := by
  obtain ⟨s, request⟩ := c
  cases request with
  | upload content fileName name =>
    show Effect l h v s _ (v.upload s content fileName name).2
    rcases upload_cases hl hv content fileName name with
      ⟨-, hsame⟩ | ⟨fault, -, -, hrefused⟩ | ⟨u, hstored, -, hafter⟩
    · rw [hsame]
      exact .empty
    · rw [hrefused]
      exact .refused
    · rw [hafter]
      exact .stored hstored
  | cleanup id =>
    show Effect l h v s _ (v.cleanup s id).2
    rw [cleanup_eq hl hv]
    exact .cleaned
  | query q => exact .queried (onlyCaches_ask s v q)

namespace Effect

variable {request : ServiceRequest} {v' : Service}

/-- The upload host after a call: the same, or after storing, or after cleaning up. -/
theorem router (hl : l.Sound) (hv : v.router = l.router h) (heffect : Effect l h v s request v') :
    ∃ h', v'.router = l.router h' ∧
      (h' = h ∨
        (∃ content fileName d, (ServiceCall.mk s request).issuedId? = some s.freshId ∧
          h' = (h.store s.now s.freshId d content fileName).host) ∨
        ∃ id d, request = .cleanup id ∧ h' = (h.cleanup s.now d id).host) := by
  cases heffect with
  | empty => exact ⟨h, hv, .inl rfl⟩
  | refused => exact ⟨_, router_afterStep hl hv _, .inr (.inl ⟨_, _, _, rfl, rfl⟩)⟩
  | stored hstored => exact ⟨_, router_afterStep hl hv _, .inr (.inl ⟨_, _, _, rfl, rfl⟩)⟩
  | cleaned => exact ⟨_, router_afterStep hl hv _, .inr (.inr ⟨_, _, rfl, rfl⟩)⟩
  | queried hquery =>
    obtain ⟨disk, rfl, -⟩ := hquery
    exact ⟨h, hv, .inl rfl⟩

/-- Public hosts stay. -/
theorem listed (heffect : Effect l h v s request v') : v'.registry.listed = v.registry.listed := by
  cases heffect with
  | empty | refused | stored | cleaned => rfl
  | queried hquery =>
    obtain ⟨disk, rfl, -⟩ := hquery
    rfl

/-- A call that neither issues an id nor cleans it up leaves what is registered under it. -/
theorem listing? (heffect : Effect l h v s request v')
    (hissued : (ServiceCall.mk s request).issuedId? ≠ some id) (hkept : request ≠ .cleanup id) :
    v'.registry.listing? id = v.registry.listing? id := by
  cases heffect with
  | empty | refused => rfl
  | stored hstored =>
    refine HostRegistry.listing?_add_of_ne fun hid => hissued ?_
    rw [← hid]
    exact congrArg some (UploadHost.id_of_store hstored).symm
  | cleaned => exact HostRegistry.listing?_remove_of_ne fun hid => hkept (by rw [hid])
  | queried hquery =>
    obtain ⟨disk, rfl, -⟩ := hquery
    rfl

/-- Cleaning up takes the unlisted host with the id. -/
theorem listing?_cleanup (heffect : Effect l h v s (.cleanup id) v')
    (hpublic : v.registry.listed.find? (fun host => host.id == id) = none) :
    v'.registry.listing? id = none := by
  cases heffect
  exact HostRegistry.listing?_remove_self hpublic

/-- Nothing gets registered under an id that is not issued. -/
theorem listing?_eq_none (heffect : Effect l h v s request v')
    (hissued : (ServiceCall.mk s request).issuedId? ≠ some id)
    (hnone : v.registry.listing? id = none) : v'.registry.listing? id = none := by
  by_cases hclean : request = .cleanup id
  · rw [hclean] at heffect
    exact heffect.listing?_cleanup (HostRegistry.listing?_eq_none_iff.1 hnone).1
  · rw [heffect.listing? hissued hclean, hnone]

/-- A file stays that is neither a table, nor a cached object, nor named by an id that is issued,
unless a clean-up takes it. -/
theorem keepsFile {path : String} (heffect : Effect l h v s request v')
    (htable : lastName path ∉ UploadHost.tableNames) (hcached : Uncached (lastName path))
    (hissued : (ServiceCall.mk s request).issuedId? = some s.freshId →
      ∀ f : GraphFormat, lastName s.freshId ++ f.suffix ≠ lastName path)
    (hclean : ∀ id, request = .cleanup id →
      v.disk.KeepsFile path (h.cleanup s.now v.disk id).disk) :
    v.disk.KeepsFile path v'.disk := by
  cases heffect with
  | empty => exact .refl _ _
  | refused => exact UploadHost.keepsFile_store htable (hissued rfl)
  | stored hstored => exact UploadHost.keepsFile_store htable (hissued rfl)
  | cleaned => exact hclean _ rfl
  | queried hquery =>
    obtain ⟨disk, rfl, hkeeps⟩ := hquery
    exact hkeeps path hcached

end Effect

/-- The upload host stays in its place. -/
theorem router_serve (hl : l.Sound) (hv : v.router = l.router h) (c : ServiceCall) :
    ∃ h', (v.serve c).router = l.router h' := by
  obtain ⟨h', hrouter, -⟩ := (effect_serve hl hv c).router hl hv
  exact ⟨h', hrouter⟩

/-! ### New ids -/

/-- The id is new to the service: it has the form of a UUID, no host goes by it, and no upload
host uses it. -/
structure Fresh (v : Service) (id : String) : Prop where
  form : IsUuid id
  unregistered : v.registry.listing? id = none
  unused : ∀ entry ∈ v.router.entries, ∀ h, entry.2 = .uploads h → h.Unused id

instance (id : String) : (p : Provider) → Decidable (∀ h, p = .uploads h → h.Unused id)
  | .uploads h => decidable_of_iff (h.Unused id)
    ⟨fun hunused _ hg => Provider.uploads.inj hg ▸ hunused, fun hall => hall h rfl⟩
  | .files _ | .objects _ _ | .propertyTables _ | .snapshot _ _ | .fixed _ =>
    isTrue fun _ hg => nomatch hg

instance (v : Service) (id : String) : Decidable (v.Fresh id) :=
  decidable_of_iff (IsUuid id ∧ v.registry.listing? id = none ∧
      ∀ entry ∈ v.router.entries, ∀ h, entry.2 = .uploads h → h.Unused id)
    ⟨fun h => ⟨h.1, h.2.1, h.2.2⟩, fun h => ⟨h.form, h.unregistered, h.unused⟩⟩

/-- An id that is new stays new until it is issued. -/
theorem Fresh.serve (hl : l.Sound) (hv : v.router = l.router h) (hfresh : v.Fresh id)
    (hform : ∀ other, c.issuedId? = some other → IsUuid other)
    (hissued : c.issuedId? ≠ some id) : (v.serve c).Fresh id where
  form := hfresh.form
  unregistered := (effect_serve hl hv c).listing?_eq_none hissued hfresh.unregistered
  unused := by
    have hunused := hfresh.unused
    rw [hv, Layout.forall_uploads_router] at hunused
    obtain ⟨hothers, hself⟩ := hunused
    obtain ⟨h', hrouter, hchange⟩ := (effect_serve hl hv c).router hl hv
    rw [hrouter, Layout.forall_uploads_router]
    refine ⟨hothers, ?_⟩
    rcases hchange with rfl | ⟨content, fileName, d, hid, rfl⟩ | ⟨other, d, -, rfl⟩
    · exact hself
    · exact hself.store (hform _ hid) fun heq => hissued (by rw [hid, heq])
    · exact hself.within (UploadHost.within_cleanup _ _ _ _)

/-! ### An upload that is registered -/

/-- The upload is registered, and in its host nothing else goes by its id. -/
structure Known (l : Layout) (u : UploadRecord) (shown : String) (v : Service) : Prop where
  host : ∃ h, v.router = l.router h ∧ h.Only u
  listed : v.registry.listing? u.id = some (u.listing shown l.id)

theorem Known.serve (hl : l.Sound) (hknown : Known l u shown v)
    (hissued : c.issuedId? ≠ some u.id) (hkept : c.request ≠ .cleanup u.id) :
    Known l u shown (v.serve c) := by
  obtain ⟨⟨h, hv, honly⟩, hlisted⟩ := hknown
  obtain ⟨h', hrouter, hchange⟩ := (effect_serve hl hv c).router hl hv
  refine ⟨⟨h', hrouter, ?_⟩, ((effect_serve hl hv c).listing? hissued hkept).trans hlisted⟩
  rcases hchange with rfl | ⟨content, fileName, d, hid, rfl⟩ | ⟨other, d, -, rfl⟩
  · exact honly
  · exact honly.store fun heq => hissued (by rw [hid, heq])
  · exact honly.within (UploadHost.within_cleanup _ _ _ _)

/-! ### An upload that is kept -/

/-- The upload is registered, its host holds it, and its file has the bytes. -/
structure Kept (l : Layout) (u : UploadRecord) (shown : String) (content : Bytes) (v : Service) :
    Prop where
  host : ∃ h, v.router = l.router h ∧ h.Holds u ∧ h.NamesApart u
  listed : v.registry.listing? u.id = some (u.listing shown l.id)
  file : v.disk.lookup u.path = .ok (.file content)

theorem Kept.known (hkept : Kept l u shown content v) : Known l u shown v := by
  obtain ⟨⟨h, hv, hholds, -⟩, hlisted, -⟩ := hkept
  exact ⟨⟨h, hv, hholds.only⟩, hlisted⟩

/-- The file of an upload stays through every call that does not clean it up. -/
theorem Kept.keepsFile_serve {f : GraphFormat} (hl : l.Sound) (hkept : Kept l u shown content v)
    (huuid : IsUuid u.id) (hname : lastName u.path = u.id ++ f.suffix)
    (hform : ∀ other, c.issuedId? = some other → IsUuid other)
    (hissued : c.issuedId? ≠ some u.id) (hclean : c.request ≠ .cleanup u.id)
    (hlive : u.isExpiredAt c.around.now = false) :
    v.disk.KeepsFile u.path (v.serve c).disk := by
  obtain ⟨⟨h, hv, hholds, hapart⟩, -, -⟩ := hkept
  have htable : lastName u.path ∉ UploadHost.tableNames := by
    rw [hname]
    exact UploadHost.append_suffix_not_mem_tableNames u.id f
  have hcached : Uncached (lastName u.path) := by
    rw [hname]
    exact huuid.uncached f
  refine (effect_serve hl hv c).keepsFile htable hcached (fun hid g => ?_) fun id hrequest => ?_
  · rw [hname, (hform _ hid).lastName_eq]
    exact fun heq => hissued (by rw [← GraphFormat.append_suffix_inj heq]; exact hid)
  · exact hholds.keepsFile_cleanup hapart hlive htable fun hid => hclean (by rw [hrequest, hid])

/-- An upload is kept through every call that comes before its expiry and does not clean it
up. -/
theorem Kept.serve {f : GraphFormat} (hl : l.Sound) (hkept : Kept l u shown content v)
    (huuid : IsUuid u.id) (hname : lastName u.path = u.id ++ f.suffix)
    (hform : ∀ other, c.issuedId? = some other → IsUuid other)
    (hissued : c.issuedId? ≠ some u.id) (hclean : c.request ≠ .cleanup u.id)
    (hlive : u.isExpiredAt c.around.now = false) : Kept l u shown content (v.serve c) := by
  have hfile := hkept.keepsFile_serve hl huuid hname hform hissued hclean hlive content hkept.file
  obtain ⟨⟨h, hv, hholds, hapart⟩, hlisted, -⟩ := hkept
  obtain ⟨h', hrouter, hchange⟩ := (effect_serve hl hv c).router hl hv
  refine ⟨⟨h', hrouter, ?_⟩, ((effect_serve hl hv c).listing? hissued hclean).trans hlisted, hfile⟩
  rcases hchange with rfl | ⟨bytes, fileName, d, hid, rfl⟩ | ⟨other, d, hrequest, rfl⟩
  · exact ⟨hholds, hapart⟩
  · have hne : c.around.freshId ≠ u.id := fun heq => hissued (by rw [hid, heq])
    refine ⟨hholds.store hne, hapart.store fun g => ?_⟩
    rw [hname, (hform _ hid).lastName_eq]
    exact fun heq => hne (GraphFormat.append_suffix_inj heq)
  · have hne : other ≠ u.id := fun heq => hclean (by rw [hrequest, heq])
    exact ⟨hholds.cleanup hlive hne, hapart.within (UploadHost.within_cleanup _ _ _ _)⟩

/-- An upload with a new id that succeeds is kept from then on. -/
theorem kept_of_stored {fileName : String} (hl : l.Sound) (hv : v.router = l.router h)
    (hfresh : v.Fresh s.freshId)
    (hstored : (h.store s.now s.freshId v.disk content fileName).result = .ok u)
    (shown : String) :
    ∃ f : GraphFormat, UploadHost.storedSuffix? fileName = some f.suffix ∧
      s.now.addDays? h.days = some u.expiresAt ∧ lastName u.path = u.id ++ f.suffix ∧
      GraphFormat.ofName? u.path = some f ∧
      Kept l u shown content
        { v.afterStep l.id (h.store s.now s.freshId v.disk content fileName) with
          registry := v.registry.add (u.listing shown l.id) } := by
  obtain ⟨f, written, expiresAt, hsuffix, hwrite, hexpiry, hu, hhost, hdisk, -⟩ :=
    UploadHost.store_ok hstored
  have hid : u.id = s.freshId := UploadHost.id_of_store hstored
  have hpath : u.path = h.filePath s.freshId f := by
    rw [hu]
    rfl
  have hname : lastName u.path = u.id ++ f.suffix := by
    rw [hpath, UploadHost.lastName_filePath, hfresh.form.lastName_eq, hid]
  have hunused : h.Unused u.id := by
    have hall := hfresh.unused
    rw [hv, Layout.forall_uploads_router] at hall
    rw [hid]
    exact hall.2
  refine ⟨f, hsuffix, by rw [hexpiry, hu]; rfl, hname, ?_, ?_, ?_, ?_⟩
  · rw [hpath]
    exact GraphFormat.ofName?_join h.directory s.freshId f
  · refine ⟨h.withRecord u, ?_, hunused.1.holds_withRecord, hunused.namesApart_withRecord hname⟩
    rw [← hhost]
    exact router_afterStep hl hv _
  · have hunregistered : v.registry.listing? (u.listing shown l.id).id = none := by
      show v.registry.listing? u.id = none
      rw [hid]
      exact hfresh.unregistered
    exact HostRegistry.listing?_add_self hunregistered
  · have htable : lastName u.path ∉ UploadHost.tableNames := by
      rw [hname]
      exact UploadHost.append_suffix_not_mem_tableNames u.id f
    -- the table is written after the file, under another name
    show (h.store s.now s.freshId v.disk content fileName).disk.lookup u.path = _
    rw [hdisk]
    refine UploadHost.keepsFile_saveRecords (h.withRecord u) written htable content ?_
    rw [hpath]
    exact Disk.lookup_write hwrite

/-! ### Runs of calls -/

/-- What holds at first and after every call holds after all of them. -/
theorem serveAll_induction {P : Service → Prop} (hfirst : P v)
    (hstep : ∀ c ∈ calls, ∀ v, P v → P (v.serve c)) : P (v.serveAll calls) := by
  induction calls generalizing v with
  | nil => exact hfirst
  | cons c calls ih =>
    rw [List.forall_mem_cons] at hstep
    exact ih (hstep.1 v hfirst) hstep.2

theorem Known.serveAll (hl : l.Sound) (hknown : Known l u shown v)
    (hissued : ∀ c ∈ calls, c.issuedId? ≠ some u.id)
    (hclean : ∀ c ∈ calls, c.request ≠ .cleanup u.id) :
    Known l u shown (v.serveAll calls) :=
  serveAll_induction hknown fun c hc _ hknown => hknown.serve hl (hissued c hc) (hclean c hc)

theorem Kept.serveAll {f : GraphFormat} (hl : l.Sound) (hkept : Kept l u shown content v)
    (huuid : IsUuid u.id) (hname : lastName u.path = u.id ++ f.suffix)
    (hform : ∀ c ∈ calls, ∀ other, c.issuedId? = some other → IsUuid other)
    (hissued : ∀ c ∈ calls, c.issuedId? ≠ some u.id)
    (hclean : ∀ c ∈ calls, c.request ≠ .cleanup u.id)
    (hlive : ∀ c ∈ calls, u.isExpiredAt c.around.now = false) :
    Kept l u shown content (v.serveAll calls) :=
  serveAll_induction hkept fun c hc _ hkept =>
    hkept.serve hl huuid hname (hform c hc) (hissued c hc) (hclean c hc) (hlive c hc)

theorem router_serveAll (hl : l.Sound) (hv : v.router = l.router h) (calls : List ServiceCall) :
    ∃ h', (v.serveAll calls).router = l.router h' := by
  refine serveAll_induction (P := fun w => ∃ h', w.router = l.router h') ⟨h, hv⟩ fun c _ w hw => ?_
  obtain ⟨h', hw⟩ := hw
  exact router_serve hl hw c

/-- Public hosts stay in a run of calls. -/
theorem listed_serveAll (hl : l.Sound) (hv : v.router = l.router h) (calls : List ServiceCall) :
    (v.serveAll calls).registry.listed = v.registry.listed := by
  refine (serveAll_induction (P := fun w => (∃ h', w.router = l.router h') ∧
    w.registry.listed = v.registry.listed) ⟨⟨h, hv⟩, rfl⟩ fun c _ w hw => ?_).2
  obtain ⟨⟨h', hw⟩, hlisted⟩ := hw
  exact ⟨router_serve hl hw c, (effect_serve hl hw c).listed.trans hlisted⟩

theorem Fresh.serveAll (hl : l.Sound) (hv : v.router = l.router h) (hfresh : v.Fresh id)
    (hform : ∀ c ∈ calls, ∀ other, c.issuedId? = some other → IsUuid other)
    (hissued : ∀ c ∈ calls, c.issuedId? ≠ some id) : (v.serveAll calls).Fresh id := by
  refine (serveAll_induction (P := fun w => (∃ h', w.router = l.router h') ∧ w.Fresh id)
    ⟨⟨h, hv⟩, hfresh⟩ fun c hc w hw => ?_).2
  obtain ⟨⟨h', hw⟩, hfresh⟩ := hw
  exact ⟨router_serve hl hw c, hfresh.serve hl hw (hform c hc) (hissued c hc)⟩

theorem listing?_serveAll_eq_none (hl : l.Sound) (hv : v.router = l.router h)
    (hissued : ∀ c ∈ calls, c.issuedId? ≠ some id) (hnone : v.registry.listing? id = none) :
    (v.serveAll calls).registry.listing? id = none := by
  refine (serveAll_induction (P := fun w => (∃ h', w.router = l.router h') ∧
    w.registry.listing? id = none) ⟨⟨h, hv⟩, hnone⟩ fun c hc w hw => ?_).2
  obtain ⟨⟨h', hw⟩, hnone⟩ := hw
  exact ⟨router_serve hl hw c, (effect_serve hl hw c).listing?_eq_none (hissued c hc) hnone⟩

theorem serveAll_cons (v : Service) (c : ServiceCall) (calls : List ServiceCall) :
    v.serveAll (c :: calls) = (v.serve c).serveAll calls :=
  rfl

theorem serveAll_append (v : Service) (before after : List ServiceCall) :
    v.serveAll (before ++ after) = (v.serveAll before).serveAll after :=
  List.foldl_append

/-- Once it is cleaned up, nothing is registered under an id any more. -/
theorem listing?_serveAll_of_cleanup (hl : l.Sound) (hv : v.router = l.router h)
    (hpublic : v.registry.listed.find? (fun host => host.id == id) = none)
    (hissued : ∀ c ∈ calls, c.issuedId? ≠ some id)
    (hclean : ∃ c ∈ calls, c.request = .cleanup id) :
    (v.serveAll calls).registry.listing? id = none := by
  obtain ⟨⟨s, request⟩, hmem, hrequest⟩ := hclean
  obtain rfl := hrequest
  obtain ⟨before, after, rfl⟩ := List.append_of_mem hmem
  have hissued' : ∀ c ∈ after, c.issuedId? ≠ some id := fun c hc =>
    hissued c (List.mem_append_right _ (List.mem_cons_of_mem _ hc))
  obtain ⟨h₁, hv₁⟩ := router_serveAll hl hv before
  obtain ⟨h₂, hv₂⟩ := router_serve hl hv₁ ⟨s, .cleanup id⟩
  rw [← listed_serveAll hl hv before] at hpublic
  rw [serveAll_append, serveAll_cons]
  exact listing?_serveAll_eq_none hl hv₂ hissued'
    ((effect_serve hl hv₁ ⟨s, .cleanup id⟩).listing?_cleanup hpublic)

end Service

end MotifQuery
