import MotifQuery.Proofs.Host.Entries
import MotifQuery.Proofs.Host.Shared
import MotifQuery.Proofs.Service.Routing

/-!
# `MotifQuery.Proofs.Service.Opening`: what a new service knows of earlier uploads

The providers of a configuration are made one after the other, each on the disk that the one
before has left (`makeProviders_induction`). Only a provider of uploads reads what is on the disk:
it makes its directory, reads the table in it and purges (`UploadHost.exists_opened`). The records
that it then has come from the table, and the hosts that a new service registers come from these
records (`exists_stored_of_unlisted`). So an id that no table of the upload directories has is
unknown to the new service (`listing?_ofConfig_eq_none`).
-/

set_option autoImplicit false

namespace MotifQuery

open Text UploadHost

/-- The upload directory of the options; `systemTemp` is where it stands when they do not
say. -/
def TemporaryOptions.directory (options : TemporaryOptions) (systemTemp : String) : String :=
  Disk.join (options.tempDir.getD systemTemp) directoryName

theorem TemporaryOptions.directory_ne_empty (options : TemporaryOptions) (systemTemp : String) :
    options.directory systemTemp ≠ "" := by
  have hname : lastName (options.directory systemTemp) = directoryName :=
    (Disk.lastName_join _ _).trans (lastName_of_not_mem (by decide))
  intro hempty
  rw [hempty] at hname
  exact absurd hname (by decide)

/-! ### Tables from disk to disk -/

theorem DiskPlace.lastName_key_table (p : DiskPlace) : lastName p.table.key = "metadata.json" :=
  Disk.lastName_key_child p (by decide)

/-- The table at a place has an entry for the id. -/
def Disk.EntryAt (d : Disk) (p : DiskPlace) (id : String) : Prop :=
  ∃ content, d.node? p.table = some (.file content) ∧ TableHas content id

namespace Disk

variable {R : DiskPlace → Bytes → Prop} {d e : Disk} {p q : DiskPlace} {directory id : String}

theorem EntryAt.of_hasEntry (hopens : d.Opens directory p) (h : d.HasEntry directory id) :
    d.EntryAt p id := by
  obtain ⟨content, hlookup, hhas⟩ := h
  exact ⟨content, (hopens.lookup_join plainName_table (usable_of_lookup hlookup)).1 hlookup, hhas⟩

theorem EntryAt.of_adds (hadds : Adds R d e) (h : e.EntryAt p id) :
    d.EntryAt p id ∨ ∃ content, R p.table content ∧ TableHas content id := by
  obtain ⟨content, hnode, hhas⟩ := h
  exact (hadds.files _ content hnode).imp (fun hold => ⟨content, hold, hhas⟩)
    fun hnew => ⟨content, hnew, hhas⟩

/-- An entry was there before, or it came with a table that was added. -/
theorem HasEntry.of_adds (hopens : d.Opens directory p) (hadds : Adds R d e)
    (h : e.HasEntry directory id) :
    d.HasEntry directory id ∨ ∃ content, R p.table content ∧ TableHas content id := by
  obtain ⟨content, hlookup, hhas⟩ := h
  exact (hadds.lookup_file hopens plainName_table hlookup).imp (fun hold => ⟨content, hold, hhas⟩)
    fun hnew => ⟨content, hnew, hhas⟩

end Disk

/-! ### Making a provider -/

namespace UploadHost

variable {options : TemporaryOptions} {systemTemp : String} {now : Instant} {h : UploadHost}
  {d e : Disk}

/-- Opening makes the directory, takes the records from the table in it, and leaves the table or
replaces it by that of the host. -/
theorem exists_opened (hopen : ofOptions options systemTemp now d = (.ok h, e)) :
    h.directory = options.directory systemTemp ∧
      ∃ made q, Disk.Adds Disk.Nothing d made ∧ made.Opens h.directory q ∧
        (∀ {key u}, h.records.get? key = some u →
          (loadRecords made h.directory).get? key = some u) ∧
        ∀ P : Bytes → Prop, P (bytesOf (tableText h.records)) →
          Disk.Adds (Tabling q P) made e := by
  have hdirectory : h.directory = options.directory systemTemp := by
    unfold ofOptions at hopen
    dsimp only at hopen
    split at hopen
    · cases hopen
    · rw [Prod.mk.injEq] at hopen
      obtain ⟨n, -, rfl⟩ := map_eq_ok_iff.1 hopen.1
      exact directory_purge _ _ _
  obtain ⟨made, n, hmake, -, hhost, hdisk⟩ := SharedDirectory.ofOptions_ok hopen
  -- the directory is made, the table in it is read, and a purge writes it again at most
  obtain ⟨q, hopens⟩ := Disk.exists_opens_of_makeDirectories
    (hdirectory ▸ options.directory_ne_empty systemTemp) hmake
  refine ⟨hdirectory, made, q, Disk.adds_makeDirectories hmake, hopens, fun hu => ?_,
    fun P hP => ?_⟩
  · rw [hhost, get?_purge] at hu
    split at hu
    · cases hu
    · exact hu
  · rw [hdisk]
    exact adds_purge hopens (hhost ▸ hP)

end UploadHost

theorem ObjectHost.adds_ofOptions {options : S3Options} {userCache : String} {d e : Disk}
    {h : ObjectHost} (hmade : ofOptions options userCache d = .ok (h, e)) :
    Disk.Adds Disk.Nothing d e := by
  unfold ofOptions at hmade
  split at hmade
  · dsimp only at hmade
    split at hmade
    · next made hmake =>
      cases hmade
      exact Disk.adds_makeDirectories hmake
    · cases hmade
  · cases hmade
    exact .refl _ d

/-- A provider of uploads is opened; any other provider leaves the files alone. -/
theorem Provider.ofConfig_cases {s : Surroundings} {d e : Disk} {c : ProviderConfig} {p : Provider}
    (hmade : ofConfig s d c = (.ok p, e)) :
    ((∀ options, c.kind ≠ .ok (.temporary options)) ∧ (∀ h, p ≠ .uploads h) ∧
      Disk.Adds Disk.Nothing d e) ∨
      ∃ options h, c.kind = .ok (.temporary options) ∧ p = .uploads h ∧
        UploadHost.ofOptions options s.tempDir s.now d = (.ok h, e) := by
  unfold ofConfig at hmade
  split at hmade
  · next kind hkind =>
    cases kind with
    | filesystem | openCypher =>
      cases hmade
      exact .inl ⟨by simp [hkind], nofun, .refl _ d⟩
    | s3 options =>
      unfold ofKind at hmade
      dsimp only at hmade
      split at hmade
      · next h made hmake =>
        cases hmade
        exact .inl ⟨by simp [hkind], nofun, ObjectHost.adds_ofOptions hmake⟩
      · cases hmade
    | temporary options =>
      unfold ofKind at hmade
      dsimp only at hmade
      rw [Prod.mk.injEq] at hmade
      obtain ⟨hhost, rfl⟩ := hmade
      obtain ⟨h, hh, rfl⟩ := map_eq_ok_iff.1 hhost
      exact .inr ⟨options, h, hkind, rfl, Prod.ext hh rfl⟩
  · cases hmade

theorem Provider.ofConfig_temporary {s : Surroundings} {d e : Disk} {c : ProviderConfig}
    {options : TemporaryOptions} {h : UploadHost} (hkind : c.kind = .ok (.temporary options))
    (hopen : UploadHost.ofOptions options s.tempDir s.now d = (.ok h, e)) :
    ofConfig s d c = (.ok (.uploads h), e) := by
  unfold ofConfig
  rw [hkind]
  dsimp only [ofKind]
  rw [hopen]
  rfl

namespace Service

variable {s : Surroundings} {v : Service} {c : ServerConfig} {d e : Disk} {id : String}

/-! ### Making all providers -/

/-- What holds at first, and after each provider that is made, holds in the end. -/
theorem makeProviders_induction {P : Router Provider → Disk → Prop}
    {providers : List ProviderConfig} {router router' : Router Provider} {d e : Disk}
    (hfirst : P router d)
    (hstep : ∀ c ∈ providers, ∀ (router : Router Provider) (d : Disk) (p : Provider) (e : Disk),
      Provider.ofConfig s d c = (.ok p, e) → P router d → P (router.add c.id p) e)
    (hmake : makeProviders s providers router d = (.ok router', e)) : P router' e := by
  induction providers generalizing router d with
  | nil =>
    cases hmake
    exact hfirst
  | cons c rest ih =>
    obtain ⟨hc, hrest⟩ := List.forall_mem_cons.1 hstep
    rw [makeProviders] at hmake
    split at hmake
    · next p made hp => exact ih (hc router d p made hp hfirst) hrest hmake
    · cases hmake

/-- The parts of a service that comes from a configuration. -/
theorem exists_router_of_ofConfig (hconfig : ofConfig s d c = (.ok v, e)) :
    makeProviders s c.providers .empty d = (.ok v.router, e) ∧ v.disk = e ∧
      v.registry = v.router.entries.foldl
        (fun registry entry => restore s.now registry entry.1 entry.2) { listed := c.hosts } := by
  unfold ofConfig at hconfig
  split at hconfig
  · cases hconfig
  next router made hmake =>
  split at hconfig
  · cases hconfig
  · cases hconfig
    exact ⟨hmake, rfl, rfl⟩

/-- The directories of all upload hosts of a new service are there. -/
theorem exists_opens_of_ofConfig (hconfig : ofConfig s d c = (.ok v, e)) :
    ∀ entry ∈ v.router.entries, ∀ h, entry.2 = .uploads h → ∃ q, v.disk.Opens h.directory q := by
  obtain ⟨hmake, hdisk, -⟩ := exists_router_of_ofConfig hconfig
  rw [hdisk]
  refine makeProviders_induction (P := fun router d => ∀ entry ∈ router.entries, ∀ h,
    entry.2 = .uploads h → ∃ q, d.Opens h.directory q)
    (fun entry hentry => absurd hentry List.not_mem_nil) ?_ hmake
  intro p _ router d q e hq hopens entry hentry h hh
  rcases Provider.ofConfig_cases hq with ⟨-, hother, hadds⟩ | ⟨options, opened, -, rfl, hopen⟩
  · rcases Router.mem_replace hentry with rfl | hold
    · exact absurd hh (hother h)
    · obtain ⟨place, hplace⟩ := hopens entry hold h hh
      exact ⟨place, hplace.mono hadds.directories⟩
  -- opening one directory keeps those that are there
  · obtain ⟨-, made, place, hmade, hplace, -, hadds⟩ := exists_opened hopen
    have hleft := hadds (fun _ => True) trivial
    rcases Router.mem_replace hentry with rfl | hold
    · cases hh
      exact ⟨place, hplace.mono hleft.directories⟩
    · obtain ⟨other, hother⟩ := hopens entry hold h hh
      exact ⟨other, (hother.mono hmade.directories).mono hleft.directories⟩

/-! ### Restored hosts -/

theorem mem_replaceIn {new x : HostListing} {hosts : List HostListing}
    (h : x ∈ new.replaceIn hosts) : x = new ∨ x ∈ hosts := by
  induction hosts with
  | nil => exact .inl (List.mem_singleton.1 h)
  | cons first rest ih =>
    rw [HostListing.replaceIn] at h
    split at h
    · exact (List.mem_cons.1 h).imp_right (List.mem_cons_of_mem _)
    · rcases List.mem_cons.1 h with rfl | h
      · exact .inr List.mem_cons_self
      · exact (ih h).imp_right (List.mem_cons_of_mem _)

theorem mem_unlisted_restore {now : Instant} {registry : HostRegistry} {id : String} {p : Provider}
    {x : HostListing} (h : x ∈ (restore now registry id p).unlisted) :
    x ∈ registry.unlisted ∨ ∃ host, p = .uploads host ∧ ∃ u ∈ host.list now,
      x = u.listing u.givenName id := by
  cases p with
  | uploads host =>
    change x ∈ ((host.list now).foldl _ registry).unlisted at h
    -- a restored listing may replace an older one, so the registry varies
    suffices hfold : ∀ (us : List UploadRecord) (registry : HostRegistry),
        x ∈ (us.foldl (fun registry u => registry.add (u.listing u.givenName id))
          registry).unlisted → x ∈ registry.unlisted ∨ ∃ u ∈ us, x = u.listing u.givenName id from
      (hfold _ registry h).imp_right fun hu => ⟨host, rfl, hu⟩
    intro us
    induction us with
    | nil => exact fun _ h => .inl h
    | cons u us ih =>
      intro registry h
      rcases ih _ h with hold | ⟨v, hv, hx⟩
      · rcases mem_replaceIn hold with rfl | hold
        · exact .inr ⟨u, List.mem_cons_self, rfl⟩
        · exact .inl hold
      · exact .inr ⟨v, List.mem_cons_of_mem _ hv, hx⟩
  | _ => exact .inl h

/-- Every unlisted host of a new service is that of an upload that one of its hosts has. -/
theorem exists_upload_of_unlisted (hconfig : ofConfig s d c = (.ok v, e)) {x : HostListing}
    (hx : x ∈ v.registry.unlisted) :
    ∃ entry ∈ v.router.entries, ∃ h, entry.2 = .uploads h ∧ ∃ u ∈ h.list s.now,
      x = u.listing u.givenName entry.1 := by
  obtain ⟨-, -, hregistry⟩ := exists_router_of_ofConfig hconfig
  rw [hregistry] at hx
  suffices hfold : ∀ (entries : List (String × Provider)) (registry : HostRegistry),
      x ∈ (entries.foldl (fun registry entry => restore s.now registry entry.1 entry.2)
        registry).unlisted → x ∈ registry.unlisted ∨ ∃ entry ∈ entries, ∃ h,
          entry.2 = .uploads h ∧ ∃ u ∈ h.list s.now, x = u.listing u.givenName entry.1 from
    (hfold _ _ hx).resolve_left List.not_mem_nil
  intro entries
  induction entries with
  | nil => exact fun _ h => .inl h
  | cons entry entries ih =>
    intro registry h
    rcases ih _ h with hold | ⟨other, hother, hupload⟩
    · rcases mem_unlisted_restore hold with hold | hupload
      · exact .inl hold
      · exact .inr ⟨entry, List.mem_cons_self, hupload⟩
    · exact .inr ⟨other, List.mem_cons_of_mem _ hother, hupload⟩

/-- What a new service has under an id in its registry of uploads is the record of an upload. -/
theorem exists_stored_of_unlisted (hconfig : ofConfig s d c = (.ok v, e)) {x : HostListing}
    (hx : v.registry.unlisted? id = some x) :
    ∃ entry ∈ v.router.entries, ∃ h, entry.2 = .uploads h ∧ ∃ key u,
      h.records.get? key = some u ∧ u.id = id ∧ x = u.listing u.givenName entry.1 := by
  have hid : x.id = id :=
    beq_iff_eq.1 (List.find?_some (p := fun y : HostListing => y.id == id) hx)
  obtain ⟨entry, hentry, h, hh, u, hu, rfl⟩ :=
    exists_upload_of_unlisted hconfig (List.mem_of_find?_eq_some hx)
  obtain ⟨stored, hstored, rfl⟩ := List.mem_map.1 (mem_list_iff.1 hu).1
  exact ⟨entry, hentry, h, hh, stored.1, stored.2, Dict.mem_entries_iff.1 hstored, hid, rfl⟩

/-! ### Ids that no table has -/

/-- The upload directories of the configuration are there, and no table in them has the id. -/
def TablesLack (c : ServerConfig) (systemTemp id : String) (d : Disk) : Prop :=
  ∀ p ∈ c.providers, ∀ options, p.kind = .ok (.temporary options) →
    (∃ q, d.Opens (options.directory systemTemp) q) ∧
      ¬ d.HasEntry (options.directory systemTemp) id

theorem TablesLack.of_adds {R : DiskPlace → Bytes → Prop} {systemTemp : String}
    (hlack : TablesLack c systemTemp id d) (hadds : Disk.Adds R d e)
    (hR : ∀ p content, R (DiskPlace.table p) content → ¬ TableHas content id) :
    TablesLack c systemTemp id e := by
  intro p hp options hkind
  obtain ⟨⟨q, hopens⟩, hnone⟩ := hlack p hp options hkind
  refine ⟨⟨q, hopens.mono hadds.directories⟩, fun hentry => ?_⟩
  rcases hentry.of_adds hopens hadds with hold | ⟨content, hnew, hhas⟩
  · exact hnone hold
  · exact hR q content hnew hhas

/-- A service that is made where no table has an id has no record with it. -/
theorem lacks_of_ofConfig (hconfig : ofConfig s d c = (.ok v, e))
    (hlack : TablesLack c s.tempDir id d) :
    ∀ entry ∈ v.router.entries, ∀ h, entry.2 = .uploads h → h.Lacks id := by
  obtain ⟨hmake, -, -⟩ := exists_router_of_ofConfig hconfig
  -- along the providers the tables lack the id, and so do the records read from them
  refine (makeProviders_induction (P := fun router d => TablesLack c s.tempDir id d ∧
    ∀ entry ∈ router.entries, ∀ h, entry.2 = .uploads h → h.Lacks id)
    ⟨hlack, fun entry hentry => absurd hentry List.not_mem_nil⟩ ?_ hmake).2
  intro p hp router d q e hq ⟨hlack, hhosts⟩
  rcases Provider.ofConfig_cases hq with ⟨-, hother, hadds⟩ | ⟨options, opened, hkind, rfl, hopen⟩
  · refine ⟨hlack.of_adds hadds fun _ _ => False.elim, fun entry hentry h hh => ?_⟩
    rcases Router.mem_replace hentry with rfl | hold
    · exact absurd hh (hother h)
    · exact hhosts entry hold h hh
  · obtain ⟨hdirectory, made, place, hmade, hplace, hrecords, hadds⟩ := exists_opened hopen
    have hlackMade : TablesLack c s.tempDir id made := hlack.of_adds hmade fun _ _ => False.elim
    have hopened : ∀ {key u}, opened.records.get? key = some u → key ≠ id ∧ u.id ≠ id := by
      intro key u hu
      refine lacks_loadRecords ?_ (hrecords hu)
      rw [hdirectory]
      exact (hlackMade p hp options hkind).2
    have hleft := hadds (fun content => ¬ TableHas content id) fun hhas => by
      obtain ⟨key, u, hu, hid⟩ := exists_of_tableHas_tableText hhas
      exact hid.elim (hopened hu).1 (hopened hu).2
    refine ⟨hlackMade.of_adds hleft fun p content htable =>
      (htable p.lastName_key_table).2, fun entry hentry h hh => ?_⟩
    rcases Router.mem_replace hentry with rfl | hold
    · cases hh
      exact fun entry hentry => hopened (Dict.mem_entries_iff.1 hentry)
    · exact hhosts entry hold h hh

/-- An id that neither a public host nor a table has is unknown to the service that is made. -/
theorem listing?_ofConfig_eq_none (hconfig : ofConfig s d c = (.ok v, e))
    (hpublic : ∀ h ∈ c.hosts, h.id ≠ id) (hlack : TablesLack c s.tempDir id d) :
    v.registry.listing? id = none := by
  obtain ⟨-, -, hlisted⟩ := ofConfig_spec hconfig
  refine HostRegistry.listing?_eq_none_iff.2 ⟨?_, ?_⟩
  · rw [hlisted, List.find?_eq_none]
    exact fun h hh => by simpa using hpublic h hh
  · refine Option.eq_none_iff_forall_ne_some.2 fun x hx => ?_
    obtain ⟨entry, hentry, h, hh, key, u, hu, hid, -⟩ := exists_stored_of_unlisted hconfig hx
    have hmem : (key, u) ∈ h.records.entries := Dict.mem_entries_iff.2 hu
    exact (lacks_of_ofConfig hconfig hlack entry hentry h hh (key, u) hmem).2 hid

end Service

end MotifQuery
