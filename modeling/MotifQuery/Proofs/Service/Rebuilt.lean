import MotifQuery.Proofs.Host.Restart
import MotifQuery.Proofs.Service.Opening

/-!
# `MotifQuery.Proofs.Service.Rebuilt`: a configuration that is served again

Where a service has been made, the directories of its providers are there, and they stay. So a
provider that holds no uploads is made again without touching the disk (`ofConfig_again`), and the
one that holds uploads finds what its upload host has left. In a configuration with one such
provider (`ServerConfig.OneTemporary`) the service can be made again: its upload host has what the
old one had, but for uploads that are expired (`Service.exists_rebuilt`).
-/

set_option autoImplicit false

namespace MotifQuery

open Text UploadHost

/-! ### Making providers again -/

/-- The directories of the system and of the user, and the memory, are the same. -/
structure Surroundings.Alike (s s' : Surroundings) : Prop where
  tempDir : s'.tempDir = s.tempDir
  cacheDir : s'.cacheDir = s.cacheDir
  totalRam : s'.totalRam = s.totalRam

namespace Provider

variable {s s' : Surroundings} {c : ProviderConfig} {d made e : Disk} {p : Provider}
  {h : UploadHost}

/-- The provider with another upload host, where it has one. -/
def withUploads (h : UploadHost) : Provider → Provider
  | uploads _ => uploads h
  | p => p

theorem withUploads_of_ne (hother : ∀ g, p ≠ .uploads g) : p.withUploads h = p := by
  cases p with
  | uploads g => exact absurd rfl (hother g)
  | _ => rfl

theorem directoriesIn_ofConfig (hmade : ofConfig s d c = (.ok p, e)) : Disk.DirectoriesIn d e := by
  rcases ofConfig_cases hmade with ⟨-, -, hadds⟩ | ⟨options, h, -, -, hopen⟩
  · exact hadds.directories
  · obtain ⟨-, made, q, hmake, -, -, hadds⟩ := exists_opened hopen
    exact hmake.directories.trans (hadds (fun _ => True) trivial).directories

/-- Where all directories are there, a provider that holds no uploads is made without touching
the disk. -/
theorem ofConfig_again (halike : s.Alike s') (hother : ∀ options, c.kind ≠ .ok (.temporary options))
    (hmade : ofConfig s d c = (.ok p, made)) (hdirectories : Disk.DirectoriesIn made e) :
    ofConfig s' e c = (.ok p, e) := by
  unfold ofConfig at hmade ⊢
  split at hmade
  · next kind hkind =>
    cases kind with
    | filesystem | openCypher =>
      cases hmade
      rfl
    | temporary options => exact absurd hkind (hother options)
    | s3 options =>
      simp only [ofKind, ObjectHost.ofOptions] at hmade ⊢
      cases hcache : options.cache with
      | false =>
        rw [hcache] at hmade
        cases hmade
        rfl
      | true =>
        rw [hcache] at hmade
        cases hmake : d.makeDirectories (options.cacheDir.getD s.cacheDir) with
        | error fault =>
          rw [hmake] at hmade
          cases hmade
        | ok written =>
          rw [hmake] at hmade
          cases hmade
          -- the cache directory was made then, and is still there
          rw [halike.cacheDir, Disk.makeDirectories_again hmake hdirectories]
          rfl
  · cases hmade

end Provider

/-- One provider of the configuration holds uploads. -/
structure ServerConfig.OneTemporary (c : ServerConfig) (front : List ProviderConfig)
    (p : ProviderConfig) (options : TemporaryOptions) (back : List ProviderConfig) : Prop where
  providers : c.providers = front ++ p :: back
  kind : p.kind = .ok (.temporary options)
  others : ∀ q ∈ front ++ back, ∀ other, q.kind ≠ .ok (.temporary other)

namespace Service

variable {s s' : Surroundings} {router router' : Router Provider} {d made e : Disk}
  {providers : List ProviderConfig}

theorem makeProviders_append (s : Surroundings) (front back : List ProviderConfig)
    (router : Router Provider) (d : Disk) :
    makeProviders s (front ++ back) router d =
      match makeProviders s front router d with
      | (.ok router, d) => makeProviders s back router d
      | (.error f, d) => (.error f, d) := by
  induction front generalizing router d with
  | nil => rfl
  | cons p front ih =>
    rw [List.cons_append, makeProviders, makeProviders]
    split
    · next q made hq => exact ih (router.add p.id q) made
    · rfl

theorem directoriesIn_makeProviders (hmake : makeProviders s providers router d = (.ok router', e)) :
    Disk.DirectoriesIn d e :=
  makeProviders_induction (P := fun _ e => Disk.DirectoriesIn d e) (fun _ h => h)
    (fun _ _ _ _ _ _ hq hold => hold.trans (Provider.directoriesIn_ofConfig hq)) hmake

/-- Providers that hold no uploads add none to a router. -/
theorem mem_of_makeProviders (hothers : ∀ p ∈ providers, ∀ options, p.kind ≠ .ok (.temporary options))
    (hmake : makeProviders s providers router d = (.ok router', e)) {entry : String × Provider}
    {h : UploadHost} (hentry : entry ∈ router'.entries) (hh : entry.2 = .uploads h) :
    entry ∈ router.entries := by
  refine makeProviders_induction (P := fun made _ => ∀ entry ∈ made.entries, ∀ h,
    entry.2 = .uploads h → entry ∈ router.entries) (fun entry hentry _ _ => hentry) ?_ hmake entry
    hentry h hh
  intro p hp made d q e hq hmade entry hentry h hh
  rcases Router.mem_replace hentry with rfl | hold
  · rcases Provider.ofConfig_cases hq with ⟨-, hother, -⟩ | ⟨options, -, hkind, -, -⟩
    · exact absurd hh (hother h)
    · exact absurd hkind (hothers p hp options)
  · exact hmade entry hold h hh

/-- Where all directories are there, providers that hold no uploads are made without touching the
disk, whatever has become of the upload hosts among the others. -/
theorem makeProviders_again {f : Provider → Provider}
    (hf : ∀ q : Provider, (∀ h, q ≠ .uploads h) → f q = q) (halike : s.Alike s')
    (hothers : ∀ p ∈ providers, ∀ options, p.kind ≠ .ok (.temporary options))
    (hmake : makeProviders s providers router d = (.ok router', made))
    (hdirectories : Disk.DirectoriesIn made e) :
    makeProviders s' providers (router.map f) e = (.ok (router'.map f), e) := by
  induction providers generalizing router d with
  | nil =>
    cases hmake
    rfl
  | cons p rest ih =>
    obtain ⟨hp, hrest⟩ := List.forall_mem_cons.1 hothers
    rw [makeProviders] at hmake ⊢
    split at hmake
    · next q after hq =>
      rw [Provider.ofConfig_again halike hp hq
        ((directoriesIn_makeProviders hmake).trans hdirectories)]
      -- the provider holds no uploads, so the function leaves it alone
      have hsame : f q = q := hf q fun h hh => by
        rcases Provider.ofConfig_cases hq with ⟨-, hother, -⟩ | ⟨options, -, hkind, -, -⟩
        · exact hother h hh
        · exact hp options hkind
      dsimp only
      rw [← ih hrest hmake, Router.map_add, hsame]
    · cases hmake

/-! ### A service made again -/

theorem mem_of_uploadHost? {v : Service} {id : String} {h : UploadHost}
    (hhost : v.uploadHost? = some (id, h)) : (id, .uploads h) ∈ v.router.entries := by
  obtain ⟨⟨name, p⟩, hentry, hfound⟩ := List.exists_of_findSome?_eq_some hhost
  cases p with
  | uploads g =>
    cases hfound
    exact hentry
  | _ => cases hfound

theorem uploadHost?_map {v w : Service} {id : String} {h h' : UploadHost}
    (hrouter : w.router = v.router.map (Provider.withUploads h'))
    (hhost : v.uploadHost? = some (id, h)) : w.uploadHost? = some (id, h') := by
  unfold uploadHost? at hhost ⊢
  rw [hrouter, Router.map]
  generalize v.router.entries = entries at hhost
  induction entries with
  | nil => cases hhost
  | cons entry entries ih =>
    obtain ⟨name, p⟩ := entry
    cases p with
    | uploads g =>
      cases hhost
      rfl
    | _ => exact ih hhost

section

variable {c : ServerConfig} {front back : List ProviderConfig} {p : ProviderConfig}
  {options : TemporaryOptions} {v : Service} {id : String} {h g : UploadHost} {q : DiskPlace}

/-- The providers around the one that holds uploads are made before and after it, and there is no
upload host but its own. -/
theorem exists_made_around (hone : c.OneTemporary front p options back)
    (hconfig : ofConfig s d c = (.ok v, e)) :
    ∃ before opening h after, makeProviders s front .empty d = (.ok before, opening) ∧
      ofOptions options s.tempDir s.now opening = (.ok h, after) ∧
      makeProviders s back (before.add p.id (.uploads h)) after = (.ok v.router, e) ∧
      ∀ entry ∈ v.router.entries, ∀ g, entry.2 = .uploads g → g = h := by
  obtain ⟨hmake, -, -⟩ := exists_router_of_ofConfig hconfig
  rw [hone.providers, makeProviders_append] at hmake
  split at hmake
  · next before opening hfront =>
    rw [makeProviders] at hmake
    split at hmake
    · next opened after hopened =>
      -- the one in between holds uploads by its settings
      rcases Provider.ofConfig_cases hopened with ⟨hother, -⟩ | ⟨other, h, hkind, rfl, hopen⟩
      · exact absurd hone.kind (hother options)
      · rw [hone.kind] at hkind
        cases hkind
        refine ⟨before, opening, h, after, hfront, hopen, hmake, fun entry hentry g hg => ?_⟩
        have hmem := mem_of_makeProviders (fun q hq => hone.others q (List.mem_append_right _ hq))
          hmake hentry hg
        rcases Router.mem_replace hmem with rfl | hold
        · cases hg
          rfl
        · exact absurd (mem_of_makeProviders
            (fun q hq => hone.others q (List.mem_append_left _ hq)) hfront hold hg)
            List.not_mem_nil
    · cases hmake
  · cases hmake

theorem exists_limits_of_ofConfig (hconfig : ofConfig s d c = (.ok v, e)) :
    ∃ limits, c.queryLimits.resolve s.totalRam = .ok limits := by
  unfold ofConfig at hconfig
  split at hconfig
  · cases hconfig
  · split at hconfig
    · cases hconfig
    · next limits hlimits => exact ⟨limits, hlimits⟩

/-- A service can be made again where its upload host has been at home. The new one has purged the
uploads that are expired, and has the others. -/
theorem exists_rebuilt (hone : c.OneTemporary front p options back)
    (hconfig : ofConfig s d c = (.ok v, made)) (hhost : v.uploadHost? = some (id, g))
    (halike : s.Alike s') (hdirectories : Disk.DirectoriesIn made e) (hhoused : h.Housed e q)
    (hdirectory : h.directory = g.directory) :
    ∃ w e' h', ofConfig s' e c = (.ok w, e') ∧ w.uploadHost? = some (id, h') ∧
      Takes (·.isExpiredAt s'.now = true) q h e h' e' ∧ h'.Housed e' q := by
  obtain ⟨before, opening, opened, after, hfront, hopen, hback, hall⟩ :=
    exists_made_around hone hconfig
  obtain ⟨limits, hlimits⟩ := exists_limits_of_ofConfig hconfig
  obtain rfl : g = opened := hall _ (mem_of_uploadHost? hhost) g rfl
  have hsame : Disk.join (options.tempDir.getD s'.tempDir) directoryName = h.directory := by
    rw [hdirectory, (exists_opened hopen).1, halike.tempDir]
    rfl
  obtain ⟨h', e', hopen', htakes, hhoused'⟩ := hhoused.exists_reopen hsame s'.now
  -- the other providers find their directories, and the upload host is replaced by the new one
  have hf : ∀ other : Provider, (∀ k, other ≠ .uploads k) → other.withUploads h' = other :=
    fun other => Provider.withUploads_of_ne
  have hp := Provider.ofConfig_temporary hone.kind hopen'
  have hopening : Disk.DirectoriesIn opening made :=
    (Provider.directoriesIn_ofConfig (Provider.ofConfig_temporary hone.kind hopen)).trans
      (directoriesIn_makeProviders hback)
  have hfront' := makeProviders_again hf halike
    (fun other hother => hone.others other (List.mem_append_left _ hother)) hfront
    (hopening.trans hdirectories)
  have hback' := makeProviders_again hf halike
    (fun other hother => hone.others other (List.mem_append_right _ hother)) hback
    (hdirectories.trans (Provider.directoriesIn_ofConfig hp))
  rw [Router.map_add] at hback'
  have hmake : makeProviders s' c.providers .empty e
      = (.ok (v.router.map (Provider.withUploads h')), e') := by
    change makeProviders s' front .empty e = _ at hfront'
    rw [hone.providers, makeProviders_append, hfront']
    dsimp only
    rw [makeProviders, hp]
    exact hback'
  obtain ⟨w, hw, hrouter⟩ : ∃ w, ofConfig s' e c = (.ok w, e') ∧
      w.router = v.router.map (Provider.withUploads h') := by
    unfold ofConfig
    rw [hmake]
    dsimp only
    rw [halike.totalRam, hlimits]
    exact ⟨_, rfl, rfl⟩
  exact ⟨w, e', h', hw, uploadHost?_map hrouter hhost, htakes, hhoused'⟩

end

end Service

end MotifQuery
