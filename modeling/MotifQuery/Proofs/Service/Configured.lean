import MotifQuery.Proofs.Config.Accepted
import MotifQuery.Proofs.Service.Lifecycle

/-!
# `MotifQuery.Proofs.Service.Configured`: a configuration served as written

The provider ids of an accepted configuration do not repeat, so making the providers one after
the other never replaces one: the service has them all, in order, each of the kind and with the
options that stand in the configuration (`forall₂_of_makeProviders`). Calls change the records of
the upload host and nothing else of any provider (`exists_records_serveAll`), and they leave the
public hosts alone. A public host is found before any unlisted one, whatever ids uploads have.

`served_as_configured` puts this together for every state that calls lead to
(`ServerConfig.ServedBy`).
-/

set_option autoImplicit false

namespace MotifQuery

open Text

/-! ### The kind of a provider -/

/-- The provider is of the kind and has its options; `s` is what was around when it was made. -/
def Provider.Realizes (s : Surroundings) : ProviderKind → Provider → Prop
  | .filesystem options, .files root => root = options.root
  | .s3 options, .objects endpoint h =>
    endpoint = options.endpoint ∧ h.bucket = options.bucket ∧
      h.cacheDir = if options.cache then some (options.cacheDir.getD s.cacheDir) else none
  | .openCypher options, .propertyTables other => other = options
  | .temporary options, .uploads h =>
    h.days = options.expirationDays ∧
      h.directory = Disk.join (options.tempDir.getD s.tempDir) UploadHost.directoryName
  | _, _ => False

/-- An entry of a router is the provider that a configuration asks for. -/
def ProviderConfig.Made (s : Surroundings) (entry : String × Provider) (p : ProviderConfig) :
    Prop :=
  entry.1 = p.id ∧ ∃ kind, p.kind = .ok kind ∧ entry.2.Realizes s kind

/-! ### What an upload host keeps -/

namespace UploadHost

variable {h : UploadHost} {now : Instant} {id name : String} {d : Disk} {content : Bytes}

theorem exists_records_foldl_drop (ids : List String) (state : UploadHost × Disk) :
    ∃ records, (ids.foldl drop state).1 = { state.1 with records } := by
  induction ids generalizing state with
  | nil => exact ⟨state.1.records, rfl⟩
  | cons id ids ih =>
    obtain ⟨records, hrest⟩ := ih (drop state id)
    refine ⟨records, ?_⟩
    rw [List.foldl_cons, hrest, drop]
    split <;> rfl

theorem exists_records_purge (h : UploadHost) (now : Instant) (d : Disk) :
    ∃ records, (h.purge now d).host = { h with records } := by
  obtain ⟨records, hdropped⟩ := exists_records_foldl_drop (h.expiredIds now) (h, d)
  refine ⟨records, ?_⟩
  rw [purge_eq]
  dsimp only
  split <;> exact hdropped

theorem exists_records_cleanup (h : UploadHost) (now : Instant) (d : Disk) (id : String) :
    ∃ records, (h.cleanup now d id).host = { h with records } := by
  rcases h.cleanup_cases now d id with
    ⟨-, hcleanup⟩ | ⟨u, -, ⟨f, -, hcleanup⟩ | ⟨-, hcleanup⟩⟩
  · rw [hcleanup]
    exact exists_records_purge h now d
  · rw [hcleanup]
    exact ⟨_, rfl⟩
  · rw [hcleanup]
    obtain ⟨records, hpurge⟩ := exists_records_purge (h.without id) now
      ((h.without id).saveRecords (removeQuietly d u.path)).2
    exact ⟨records, hpurge⟩

theorem exists_records_store (h : UploadHost) (now : Instant) (id : String) (d : Disk)
    (content : Bytes) (name : String) :
    ∃ records, (h.store now id d content name).host = { h with records } := by
  rcases h.store_cases now id d content name with
    ⟨fault, hstore⟩ | ⟨f, written, -, -, hstore | ⟨expiresAt, -, hstore⟩⟩
  · rw [hstore]
    exact ⟨h.records, rfl⟩
  · rw [hstore]
    exact ⟨h.records, rfl⟩
  · rw [hstore, keep_host]
    exact ⟨_, rfl⟩

end UploadHost

namespace Provider

variable {s : Surroundings} {d e : Disk} {kind : ProviderKind} {p : Provider} {h : UploadHost}

theorem realizes_of_ofKind (hmade : ofKind s d kind = (.ok p, e)) : p.Realizes s kind := by
  cases kind with
  | filesystem options =>
    cases hmade
    rfl
  | s3 options =>
    simp only [ofKind, ObjectHost.ofOptions] at hmade
    cases hcache : options.cache with
    | false =>
      rw [hcache] at hmade
      cases hmade
      exact ⟨rfl, rfl, by rw [hcache]; rfl⟩
    | true =>
      rw [hcache] at hmade
      cases hdirectories : d.makeDirectories (options.cacheDir.getD s.cacheDir) with
      | error fault =>
        rw [hdirectories] at hmade
        cases hmade
      | ok made =>
        rw [hdirectories] at hmade
        cases hmade
        exact ⟨rfl, rfl, by rw [hcache]; rfl⟩
  | openCypher options =>
    cases hmade
    rfl
  | temporary options =>
    simp only [ofKind, UploadHost.ofOptions] at hmade
    split at hmade
    · cases hmade
    next opened _ =>
    rw [Prod.mk.injEq, map_eq_ok_iff] at hmade
    obtain ⟨⟨h, hpurge, rfl⟩, -⟩ := hmade
    obtain ⟨n, -, rfl⟩ := map_eq_ok_iff.1 hpurge
    -- opening loads the records and drops the expired ones; neither changes the settings
    obtain ⟨records, hhost⟩ := UploadHost.exists_records_purge
      { directory := Disk.join (options.tempDir.getD s.tempDir) UploadHost.directoryName,
        days := options.expirationDays,
        records := UploadHost.loadRecords opened
          (Disk.join (options.tempDir.getD s.tempDir) UploadHost.directoryName) } s.now opened
    rw [hhost]
    exact ⟨rfl, rfl⟩

/-- The records of an upload host do not matter to its kind. -/
theorem realizes_withRecords {records : Dict UploadRecord}
    (hrealizes : (uploads h).Realizes s kind) :
    (uploads { h with records }).Realizes s kind := by
  cases kind <;> exact hrealizes

end Provider

/-! ### The providers of a service -/

/-- A provider with a new id is registered at the end. -/
theorem Router.replace_of_notMem {π : Type} {id : String} {p : π} {entries : List (String × π)}
    (h : ∀ entry ∈ entries, entry.1 ≠ id) : replace id p entries = entries ++ [(id, p)] := by
  induction entries with
  | nil => rfl
  | cons first rest ih =>
    obtain ⟨hfirst, hrest⟩ := List.forall_mem_cons.1 h
    rw [replace, if_neg hfirst, ih hrest]
    rfl

namespace Service

variable {s : Surroundings} {v : Service} {l : Layout} {h : UploadHost}

/-- Providers with new ids are made in their order, behind those that are there. -/
theorem forall₂_of_makeProviders {providers : List ProviderConfig}
    {router router' : Router Provider} {d e : Disk}
    (hnew : ∀ p ∈ providers, ∀ entry ∈ router.entries, entry.1 ≠ p.id)
    (hdistinct : (providers.map (·.id)).Nodup)
    (hmake : makeProviders s providers router d = (.ok router', e)) :
    ∃ made, router'.entries = router.entries ++ made ∧
      List.Forall₂ (ProviderConfig.Made s) made providers := by
  induction providers generalizing router d with
  | nil =>
    cases hmake
    exact ⟨[], (List.append_nil _).symm, .nil⟩
  | cons p rest ih =>
    obtain ⟨hfirst, hrest⟩ := List.forall_mem_cons.1 hnew
    obtain ⟨hother, hdistinct⟩ := List.nodup_cons.1 hdistinct
    rw [makeProviders] at hmake
    split at hmake
    · next q made hq =>
      have hentries : (router.add p.id q).entries = router.entries ++ [(p.id, q)] :=
        Router.replace_of_notMem hfirst
      have hmade : ProviderConfig.Made s (p.id, q) p := by
        unfold Provider.ofConfig at hq
        split at hq
        · next kind hkind => exact ⟨rfl, kind, hkind, Provider.realizes_of_ofKind hq⟩
        · cases hq
      -- the id that was just added differs from all later ones
      have hlater : ∀ other ∈ rest, ∀ entry ∈ (router.add p.id q).entries,
          entry.1 ≠ other.id := by
        intro other hmem entry hentry
        rw [hentries, List.mem_append, List.mem_singleton] at hentry
        rcases hentry with hentry | rfl
        · exact hrest other hmem entry hentry
        · exact fun heq => hother (List.mem_map.2 ⟨other, hmem, heq.symm⟩)
      obtain ⟨behind, hbehind, hall⟩ := ih hlater hdistinct hmake
      refine ⟨(p.id, q) :: behind, ?_, .cons hmade hall⟩
      rw [hbehind, hentries, List.append_assoc]
      rfl
    · cases hmake

/-- What holds of the providers one by one, whatever records the upload host has, holds with
other records. -/
theorem forall₂_router_withRecords {xs : List ProviderConfig} {records : Dict UploadRecord}
    (hall : List.Forall₂ (ProviderConfig.Made s) (l.router h).entries xs) :
    List.Forall₂ (ProviderConfig.Made s) (l.router { h with records }).entries xs := by
  obtain ⟨front, id, back⟩ := l
  change List.Forall₂ _ (front ++ (id, .uploads h) :: back) xs at hall
  change List.Forall₂ _ (front ++ (id, .uploads { h with records }) :: back) xs
  induction front generalizing xs with
  | nil =>
    cases hall with
    | cons hself hback =>
      obtain ⟨hid, kind, hkind, hrealizes⟩ := hself
      exact .cons ⟨hid, kind, hkind, Provider.realizes_withRecords hrealizes⟩ hback
  | cons first front ih =>
    cases hall with
    | cons hfirst hrest => exact .cons hfirst (ih hrest)

/-- The providers that are made go by the ids of the configuration. -/
theorem map_fst_of_made {entries : List (String × Provider)} {providers : List ProviderConfig}
    (hmade : List.Forall₂ (ProviderConfig.Made s) entries providers) :
    entries.map (·.1) = providers.map (·.id) := by
  induction hmade with
  | nil => rfl
  | cons hfirst _ ih => rw [List.map_cons, List.map_cons, hfirst.1, ih]

/-- What the configuration names is made. -/
theorem exists_made_of_mem {entries : List (String × Provider)} {providers : List ProviderConfig}
    (hmade : List.Forall₂ (ProviderConfig.Made s) entries providers) {p : ProviderConfig}
    (hp : p ∈ providers) : ∃ entry ∈ entries, ProviderConfig.Made s entry p := by
  induction hmade with
  | nil => cases hp
  | cons hfirst _ ih =>
    rcases List.mem_cons.1 hp with rfl | hp
    · exact ⟨_, List.mem_cons_self, hfirst⟩
    · obtain ⟨entry, hentry, hmade⟩ := ih hp
      exact ⟨entry, List.mem_cons_of_mem _ hentry, hmade⟩

/-- For each provider of uploads that the configuration names there is an upload host. -/
theorem exists_uploads_of_made {entries : List (String × Provider)}
    {providers : List ProviderConfig} {p : ProviderConfig} {options : TemporaryOptions}
    (hmade : List.Forall₂ (ProviderConfig.Made s) entries providers) (hp : p ∈ providers)
    (hkind : p.kind = .ok (.temporary options)) :
    ∃ entry ∈ entries, ∃ h, entry.2 = .uploads h ∧
      h.directory = Disk.join (options.tempDir.getD s.tempDir) UploadHost.directoryName := by
  obtain ⟨entry, hentry, -, kind, hkind', hrealizes⟩ := exists_made_of_mem hmade hp
  obtain rfl := Except.ok.inj (hkind.symm.trans hkind')
  refine ⟨entry, hentry, ?_⟩
  cases hprovider : entry.2 with
  | uploads h =>
    rw [hprovider] at hrealizes
    exact ⟨h, rfl, hrealizes.2⟩
  | _ =>
    rw [hprovider] at hrealizes
    exact hrealizes.elim

/-- A call changes the records of the upload host and nothing else of any provider. -/
theorem exists_records_serve (hl : l.Sound) (hv : v.router = l.router h) (c : ServiceCall) :
    ∃ records, (v.serve c).router = l.router { h with records } := by
  obtain ⟨h', hrouter, rfl | ⟨content, fileName, d, -, rfl⟩ | ⟨id, d, -, rfl⟩⟩ :=
    (effect_serve hl hv c).router hl hv
  · exact ⟨h'.records, hrouter⟩
  · obtain ⟨records, hstore⟩ := h.exists_records_store c.around.now c.around.freshId d content
      fileName
    exact ⟨records, hstore ▸ hrouter⟩
  · obtain ⟨records, hcleanup⟩ := h.exists_records_cleanup c.around.now d id
    exact ⟨records, hcleanup ▸ hrouter⟩

theorem exists_records_serveAll (hl : l.Sound) (hv : v.router = l.router h)
    (calls : List ServiceCall) :
    ∃ records, (v.serveAll calls).router = l.router { h with records } := by
  refine serveAll_induction (P := fun w => ∃ records, w.router = l.router { h with records })
    ⟨h.records, hv⟩ fun c _ w hw => ?_
  obtain ⟨records, hw⟩ := hw
  exact exists_records_serve hl hw c

/-- Calls leave the providers what they are, and the public hosts. -/
theorem made_serveAll {providers : List ProviderConfig} (hdistinct : v.router.Distinct)
    (hconfigured : ∀ entry ∈ v.router.entries, entry.2.Configured)
    (hmade : List.Forall₂ (ProviderConfig.Made s) v.router.entries providers)
    (calls : List ServiceCall) :
    List.Forall₂ (ProviderConfig.Made s) (v.serveAll calls).router.entries providers ∧
      (v.serveAll calls).registry.listed = v.registry.listed := by
  cases hhost : v.uploadHost? with
  | none =>
    obtain ⟨disk, hafter⟩ := exists_disk_serveAll hhost calls
    rw [hafter]
    exact ⟨hmade, rfl⟩
  | some entry =>
    obtain ⟨l, hl, -, hv⟩ := exists_layout hdistinct hconfigured hhost
    obtain ⟨records, hrouter⟩ := exists_records_serveAll hl hv calls
    rw [hv] at hmade
    rw [hrouter]
    exact ⟨forall₂_router_withRecords hmade, listed_serveAll hl hv calls⟩

/-! ### Providers under their ids -/

/-- The provider with the id accepts the URI. -/
def Accepts (s : Surroundings) (v : Service) (providerId uri : String) : Prop :=
  (v.router.get? providerId).any (fun p => p.accepts s.now uri) = true

instance (s : Surroundings) (v : Service) (providerId uri : String) :
    Decidable (v.Accepts s providerId uri) := by
  unfold Accepts
  infer_instance

/-- Where no id repeats, every provider is found under its own. -/
theorem accepts_iff (hdistinct : v.router.Distinct) {entry : String × Provider}
    (hentry : entry ∈ v.router.entries) (uri : String) :
    v.Accepts s entry.1 uri ↔ entry.2.accepts s.now uri = true := by
  have hfind := find?_of_nodup_map hdistinct hentry
  rw [Accepts, Router.get?, hfind]
  rfl

/-- A URI is routed to the first provider of the configuration that accepts it. -/
theorem map_fst_providerOf? {s₀ : Surroundings} {providers : List ProviderConfig}
    (hdistinct : v.router.Distinct)
    (hmade : List.Forall₂ (ProviderConfig.Made s₀) v.router.entries providers) (uri : String) :
    (v.providerOf? s uri).map (·.1)
      = (providers.find? fun p => decide (v.Accepts s p.id uri)).map (·.id) := by
  have haccepts : ∀ entry ∈ v.router.entries,
      (entry.2.accepts s.now uri = decide (v.Accepts s entry.1 uri)) := fun entry hentry => by
    rw [Bool.eq_iff_iff, decide_eq_true_eq]
    exact (accepts_iff hdistinct hentry uri).symm
  rw [providerOf?, Router.route?]
  generalize v.router.entries = entries at hmade haccepts
  induction hmade with
  | nil => rfl
  | @cons entry p _ _ hfirst _ ih =>
    obtain ⟨hentry, hrest⟩ := List.forall_mem_cons.1 haccepts
    obtain ⟨hid, -⟩ := hfirst
    rw [List.find?_cons, List.find?_cons, hentry, hid]
    split
    · exact congrArg some hid
    · exact ih hrest

end Service

/-! ### Configurations and services -/

/-- The service has the providers and the public hosts of the configuration, and routes each
host to the first provider of the configuration that accepts it. The providers were made in
surroundings `s₀`, and the service is looked at in surroundings `s`. -/
structure ServerConfig.ServedBy (c : ServerConfig) (s₀ s : Surroundings) (v : Service) :
    Prop where
  made : List.Forall₂ (ProviderConfig.Made s₀) v.router.entries c.providers
  providers : v.providers.map (·.field? "id") = c.providers.map fun p => some (.str p.id)
  hosts : v.hosts = c.hosts.map HostListing.summary
  resolved : ∀ h ∈ c.hosts, v.resolve h.id = .ok h
  routings : v.routings s = c.hosts.map fun h =>
    { id := h.id, uri := h.uri,
      providerId := (c.providers.find? fun p => decide (v.Accepts s p.id h.uri)).map (·.id) }
  valid : ∀ r ∈ v.routings s, r.valid = true ↔ ∃ p ∈ c.providers, v.Accepts s p.id r.uri

namespace Service

variable {s₀ s : Surroundings} {c : ServerConfig} {d d₀ : Disk} {v₀ v : Service}

theorem made_of_ofConfig (hdistinct : (c.providers.map (·.id)).Nodup)
    (hconfig : ofConfig s₀ d c = (.ok v₀, d₀)) :
    List.Forall₂ (ProviderConfig.Made s₀) v₀.router.entries c.providers := by
  unfold ofConfig at hconfig
  split at hconfig
  · cases hconfig
  next router made hmake =>
  split at hconfig
  · cases hconfig
  obtain ⟨entries, hentries, hall⟩ := forall₂_of_makeProviders
    (fun p _ entry hentry => absurd hentry List.not_mem_nil) hdistinct hmake
  cases hconfig
  rw [hentries]
  exact hall

/-- A public host is found under its id, whatever is registered besides. -/
theorem resolve_of_mem_listed (hdistinct : (v.registry.listed.map (·.id)).Nodup) {h : HostListing}
    (hmem : h ∈ v.registry.listed) : v.resolve h.id = .ok h := by
  have hfind := find?_of_nodup_map hdistinct hmem
  refine resolve_of_listing ?_
  rw [HostRegistry.listing?, HostRegistry.find?, hfind]
  rfl

/-- An accepted configuration for which there is a service is served as it is written, after
every sequence of uploads, clean-ups and queries. -/
theorem served_as_configured (haccepted : c.Accepted)
    (hconfig : ofConfig s₀ d c = (.ok v₀, d₀)) (calls : List ServiceCall) (s : Surroundings) :
    c.ServedBy s₀ s (v₀.serveAll calls) := by
  obtain ⟨hdistinct₀, hconfigured, hlisted₀⟩ := ofConfig_spec hconfig
  obtain ⟨hmade, hlisted⟩ := made_serveAll hdistinct₀ hconfigured
    (made_of_ofConfig haccepted.nodup_providerIds hconfig) calls
  rw [hlisted₀] at hlisted
  generalize v₀.serveAll calls = v at hmade hlisted
  have hids : v.router.entries.map (·.1) = c.providers.map (·.id) :=
    map_fst_of_made hmade
  have hdistinct : v.router.Distinct := by
    rw [Router.Distinct, hids]
    exact haccepted.nodup_providerIds
  have hroutings : v.routings s = c.hosts.map fun h =>
      { id := h.id, uri := h.uri,
        providerId := (c.providers.find? fun p => decide (v.Accepts s p.id h.uri)).map (·.id) } := by
    rw [routings, hlisted]
    refine List.map_congr_left fun h _ => ?_
    rw [map_fst_providerOf? hdistinct hmade]
  refine ⟨hmade, ?_, by rw [hosts, hlisted], fun h hmem => ?_, hroutings, fun r hr => ?_⟩
  · have hshown : v.providers.map (·.field? "id")
        = (v.router.entries.map (·.1)).map fun id => some (.str id) := by
      rw [providers, List.map_map, List.map_map]
      rfl
    rw [hshown, hids, List.map_map]
    rfl
  · exact resolve_of_mem_listed (hlisted ▸ haccepted.nodup_hostIds) (hlisted ▸ hmem)
  · rw [hroutings] at hr
    obtain ⟨h, -, rfl⟩ := List.mem_map.1 hr
    rw [HostRouting.valid, Option.isSome_map, List.find?_isSome]
    simp only [decide_eq_true_eq]

/-- A public host keeps its place when an upload gets its id. -/
theorem served_as_configured_beside_upload :
    let raw := "providers:\n- id: files\n  type: filesystem\n- id: up\n  type: temporary\n"
      ++ "hosts:\n- id: a\n  uri: file://a.csv\n  name: A\n"
      ++ "query_limits:\n  max_ram_bytes: 1000000\n  max_duration_seconds: null\n"
    let calls : List ServiceCall :=
      [⟨reporting 1 "a", .upload (bytesOf "source,target\na,b\n") "b.csv" none⟩]
    ∃ c v₀ d₀, ServerConfig.ofYamlText raw = .ok c ∧
      ofConfig (reporting 0 "") .empty c = (.ok v₀, d₀) ∧ c.hosts.map (·.id) = ["a"] ∧
      c.ServedBy (reporting 0 "") (reporting 2 "") (v₀.serveAll calls) := by
  intro raw calls
  have htest : (ServerConfig.ofYamlText raw).toOption.any (fun c =>
      decide (c.hosts.map (·.id) = ["a"]) &&
      (ofConfig (reporting 0 "") .empty c).1.toOption.any fun _ => true) = true := by
    refine ServerConfig.any_ofYamlText (toList_append_of
      (toList_append_of String.toList_ofList String.toList_ofList)
      String.toList_ofList) ?_
    decide +kernel
  obtain ⟨c, hread, htest⟩ := exists_of_any_toOption htest
  rw [Bool.and_eq_true] at htest
  obtain ⟨v₀, hservice, -⟩ := exists_of_any_toOption htest.2
  have hconfig : ofConfig (reporting 0 "") .empty c
      = (.ok v₀, (ofConfig (reporting 0 "") .empty c).2) := Prod.ext hservice rfl
  exact ⟨c, v₀, _, hread, hconfig, of_decide_eq_true htest.1,
    served_as_configured (.yaml hread) hconfig calls (reporting 2 "")⟩

end Service

end MotifQuery
