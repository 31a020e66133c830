import MotifQuery.Proofs.Host.Provider
import MotifQuery.Proofs.Host.Registry
import MotifQuery.Service.Upload

/-!
# `MotifQuery.Proofs.Service.Routing`: the upload host of a service

Uploads go to the first provider that holds them. `Layout` cuts the providers of a service
there: those in front hold no uploads, and those behind get none. Storing and cleaning up
replace the upload host in its place, so the layout of a service stays for good. The URI of an
upload passes the providers in front, whatever they are; it is served by the upload host as long
as the upload lives there (`providerOf?_of_live?`), and otherwise by no provider that lacks its
id (`providerOf?_eq_none`).
-/

set_option autoImplicit false

namespace MotifQuery

open Text

/-- The providers around the first one that holds uploads, and the id of that one. -/
structure Layout where
  front : List (String × Provider)
  id : String
  back : List (String × Provider)

namespace Layout

/-- The router with an upload host in its place. -/
def router (l : Layout) (h : UploadHost) : Router Provider :=
  { entries := l.front ++ (l.id, .uploads h) :: l.back }

/-- All providers are those of a configuration; those in front hold no uploads and have other
ids. -/
structure Sound (l : Layout) : Prop where
  configured : ∀ entry ∈ l.front ++ l.back, entry.2.Configured
  first : ∀ entry ∈ l.front, ∀ h, entry.2 ≠ .uploads h
  ids : ∀ entry ∈ l.front, entry.1 ≠ l.id

/-- No upload host behind the first one goes by the id. -/
def Lacks (l : Layout) (id : String) : Prop :=
  ∀ entry ∈ l.back, ∀ h, entry.2 = .uploads h → h.Lacks id

/-- What holds of all upload hosts is to be shown of the one in its place and of the others. -/
theorem forall_uploads_router {l : Layout} {h : UploadHost} {P : UploadHost → Prop} :
    (∀ entry ∈ (l.router h).entries, ∀ g, entry.2 = .uploads g → P g)
      ↔ (∀ entry ∈ l.front ++ l.back, ∀ g, entry.2 = .uploads g → P g) ∧ P h := by
  simp only [router, List.mem_append, List.mem_cons]
  constructor
  · intro hall
    exact ⟨fun entry hentry => hall entry (hentry.imp_right .inr),
      hall (l.id, .uploads h) (.inr (.inl rfl)) h rfl⟩
  · rintro ⟨hothers, hself⟩ entry (hfront | rfl | hback) g hg
    · exact hothers entry (.inl hfront) g hg
    · cases hg
      exact hself
    · exact hothers entry (.inr hback) g hg

end Layout

namespace Service

variable {s : Surroundings} {v : Service} {l : Layout} {h : UploadHost} {u : UploadRecord}
  {id : String}

theorem uploadHost?_of_layout (hl : l.Sound) (hv : v.router = l.router h) :
    v.uploadHost? = some (l.id, h) := by
  unfold uploadHost?
  rw [hv, Layout.router, List.findSome?_append, List.findSome?_eq_none_iff.2, Option.none_or]
  · rfl
  · intro entry hentry
    have hother := hl.first entry hentry
    split
    · next g hg => exact absurd hg (hother g)
    · rfl

theorem router_afterStep {α : Type} (hl : l.Sound) (hv : v.router = l.router h)
    (step : UploadStep α) : (v.afterStep l.id step).router = l.router step.host := by
  rw [afterStep, hv, Layout.router, Router.add, Router.replace_append hl.ids]
  rfl

/-- A service with distinct provider ids that stores uploads has a layout. -/
theorem exists_layout {providerId : String} (hdistinct : v.router.Distinct)
    (hconfigured : ∀ entry ∈ v.router.entries, entry.2.Configured)
    (hhost : v.uploadHost? = some (providerId, h)) :
    ∃ l : Layout, l.Sound ∧ l.id = providerId ∧ v.router = l.router h := by
  unfold uploadHost? at hhost
  obtain ⟨front, entry, back, hentries, hentry, hfront⟩ := List.findSome?_eq_some_iff.1 hhost
  have hfirst : ∀ entry ∈ front, ∀ g, entry.2 ≠ .uploads g := by
    intro other hother g hg
    have hnone := hfront other hother
    rw [hg] at hnone
    cases hnone
  split at hentry
  · next g hg =>
    cases hentry
    -- with distinct ids nothing in front is found under the id of the upload host
    have hids : ∀ other ∈ front, other.1 ≠ entry.1 := by
      intro other hother heq
      unfold Router.Distinct at hdistinct
      rw [hentries, List.map_append, List.nodup_append] at hdistinct
      exact hdistinct.2.2 other.1 (List.mem_map_of_mem hother) entry.1 List.mem_cons_self heq
    refine ⟨⟨front, entry.1, back⟩, ⟨?_, hfirst, hids⟩, rfl, ?_⟩
    · intro other hother
      refine hconfigured other ?_
      rw [hentries]
      simp only [List.mem_append, List.mem_cons] at hother ⊢
      exact hother.imp_right .inr
    · obtain ⟨⟨entries⟩, registry, limits, disk⟩ := v
      obtain ⟨name, p⟩ := entry
      cases hg
      exact congrArg Router.mk hentries
  · cases hentry

/-! ### Routing the URI of an upload -/

theorem not_accepts_front (hl : l.Sound) (now : Instant) (id : String) :
    ∀ entry ∈ l.front, ¬ entry.2.accepts now (uploadScheme ++ id) = true := by
  intro entry hentry
  have hconfigured := hl.configured entry (List.mem_append_left _ hentry)
  rw [Provider.not_accepts_upload hconfigured (hl.first entry hentry)]
  exact Bool.false_ne_true

/-- The URI of a living upload goes to the host that stores it. -/
theorem providerOf?_of_live? (hl : l.Sound) (hv : v.router = l.router h)
    (hlive : h.live? s.now id = some u) (hformat : hasGraphSuffix u.path = true) :
    v.providerOf? s (uploadScheme ++ id) = some (l.id, .uploads h) := by
  have hfront := List.find?_eq_none.2 (not_accepts_front hl s.now id)
  have haccepts := UploadHost.accepts_of_live? hlive hformat
  rw [providerOf?, Router.route?, hv, Layout.router, List.find?_append, hfront, Option.none_or]
  exact List.find?_cons_of_pos haccepts

/-- The URI of an upload that lives no more goes to no provider. -/
theorem providerOf?_eq_none (hl : l.Sound) (hv : v.router = l.router h)
    (hgone : h.live? s.now id = none) (hlacks : l.Lacks id) :
    v.providerOf? s (uploadScheme ++ id) = none := by
  rw [providerOf?, Router.route?, hv, Layout.router, List.find?_eq_none]
  intro entry hentry
  rcases List.mem_append.1 hentry with hfront | hrest
  · exact not_accepts_front hl s.now id entry hfront
  · rcases List.mem_cons.1 hrest with rfl | hback
    · show ¬ h.accepts s.now (uploadScheme ++ id) = true
      rw [UploadHost.not_accepts_of_live? hgone]
      exact Bool.false_ne_true
    · by_cases hother : ∃ g, entry.2 = .uploads g
      · obtain ⟨g, hg⟩ := hother
        rw [hg]
        show ¬ g.accepts s.now (uploadScheme ++ id) = true
        rw [UploadHost.not_accepts_of_live? (hlacks entry hback g hg).live?_eq_none]
        exact Bool.false_ne_true
      · have hconfigured := hl.configured entry (List.mem_append_right _ hback)
        rw [Provider.not_accepts_upload hconfigured fun g hg => hother ⟨g, hg⟩]
        exact Bool.false_ne_true

/-! ### The service of a configuration -/

theorem makeProviders_spec {providers : List ProviderConfig} {router router' : Router Provider}
    {d e : Disk} (hdistinct : router.Distinct)
    (hconfigured : ∀ entry ∈ router.entries, entry.2.Configured)
    (hmake : makeProviders s providers router d = (.ok router', e)) :
    router'.Distinct ∧ ∀ entry ∈ router'.entries, entry.2.Configured := by
  induction providers generalizing router d with
  | nil =>
    cases hmake
    exact ⟨hdistinct, hconfigured⟩
  | cons c rest ih =>
    rw [makeProviders] at hmake
    split at hmake
    · next p made hp =>
      refine ih (hdistinct.add c.id p) (fun entry hentry => ?_) hmake
      rcases Router.mem_replace hentry with rfl | hold
      · exact Provider.configured_of_ofConfig hp
      · exact hconfigured entry hold
    · cases hmake

theorem listed_restore (now : Instant) (registry : HostRegistry) (id : String) (p : Provider) :
    (restore now registry id p).listed = registry.listed := by
  cases p with
  | uploads h =>
    unfold restore
    dsimp only
    induction h.list now generalizing registry with
    | nil => rfl
    | cons u us ih => exact ih (registry.add (u.listing u.givenName id))
  | _ => rfl

/-- The service of a configuration has its public hosts and, under distinct ids, its
providers. -/
theorem ofConfig_spec {c : ServerConfig} {d e : Disk} (hconfig : ofConfig s d c = (.ok v, e)) :
    v.router.Distinct ∧ (∀ entry ∈ v.router.entries, entry.2.Configured) ∧
      v.registry.listed = c.hosts := by
  unfold ofConfig at hconfig
  split at hconfig
  · cases hconfig
  · next router made hmake =>
    split at hconfig
    · cases hconfig
    · cases hconfig
      obtain ⟨hdistinct, hconfigured⟩ := makeProviders_spec Router.distinct_empty
        (fun entry hentry => by cases hentry) hmake
      refine ⟨hdistinct, hconfigured, ?_⟩
      suffices h : ∀ (entries : List (String × Provider)) (registry : HostRegistry),
          (entries.foldl (fun registry entry => restore s.now registry entry.1 entry.2)
            registry).listed = registry.listed from h router.entries { listed := c.hosts }
      intro entries
      induction entries with
      | nil => exact fun _ => rfl
      | cons entry entries ih => exact fun registry => (ih _).trans (listed_restore _ _ _ _)

end Service

end MotifQuery
