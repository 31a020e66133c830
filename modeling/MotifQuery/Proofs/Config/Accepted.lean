import Mathlib.Data.List.Nodup
import MotifQuery.Config.File
import MotifQuery.Proofs.Text.Split

/-!
# `MotifQuery.Proofs.Config.Accepted`: configurations that are accepted

A configuration comes from a text in JSON, from one in YAML or from a file, and each way ends in
the same checks. So whatever is accepted (`ServerConfig.Accepted`) has provider ids and host ids
that do not repeat (`Accepted.nodup_providerIds`, `Accepted.nodup_hostIds`).

A configuration that is given as a literal is evaluated through `any_ofYamlText`.
-/

set_option autoImplicit false

namespace MotifQuery.ServerConfig

variable {c : ServerConfig}

/-- The configuration is read from a text or from a file. -/
inductive Accepted (c : ServerConfig) : Prop
  | json {raw : String} (h : ofJsonText raw = .ok c)
  | yaml {raw : String} (h : ofYamlText raw = .ok c)
  | file {d : Disk} {path : String} (h : load d path = .ok c)

/-! ### Reading known texts -/

/-- A test of the configuration in a text, taken from the characters of the text. Evaluation that
starts at the characters is spared the decoding of the literal. -/
theorem any_ofYamlText {raw : String} {cs : List Char} {p : ServerConfig → Bool}
    (hraw : raw.toList = cs)
    (h : ((Yaml.Node.parse? cs).bind (ofSource? Yaml.source)).any
      (fun c => c.validated.toOption.any p) = true) : (ofYamlText raw).toOption.any p = true := by
  unfold ofYamlText
  rw [hraw]
  cases hc : (Yaml.Node.parse? cs).bind (ofSource? Yaml.source) with
  | none =>
    rw [hc] at h
    cases h
  | some c =>
    rw [hc] at h
    exact h

/-! ### Checks -/

theorem validate_of_validated {c' : ServerConfig} (h : c'.validated = .ok c) :
    c.validate = .ok () := by
  unfold validated at h
  split at h
  · next hvalid =>
    cases h
    exact hvalid
  · cases h

theorem validate_of_ofJsonText {raw : String} (h : ofJsonText raw = .ok c) :
    c.validate = .ok () := by
  unfold ofJsonText at h
  split at h
  · exact validate_of_validated h
  · cases h

theorem validate_of_ofYamlText {raw : String} (h : ofYamlText raw = .ok c) :
    c.validate = .ok () := by
  unfold ofYamlText at h
  split at h
  · exact validate_of_validated h
  · cases h

/-- What is accepted has passed the checks. -/
theorem Accepted.validate (h : c.Accepted) : c.validate = .ok () := by
  cases h with
  | json h => exact validate_of_ofJsonText h
  | yaml h => exact validate_of_ofYamlText h
  | file h =>
    unfold load at h
    split at h
    · cases h
    · split at h
      · exact validate_of_ofYamlText h
      · exact validate_of_ofJsonText h

/-- Providers that pass the check have ids that are new to those seen, and new to each other. -/
theorem nodup_of_validateProviders {seen : List String} {providers : List ProviderConfig}
    (h : validateProviders seen providers = .ok ()) :
    (providers.map (·.id)).Nodup ∧ ∀ p ∈ providers, p.id ∉ seen := by
  induction providers generalizing seen with
  | nil => exact ⟨List.nodup_nil, fun _ hp => absurd hp List.not_mem_nil⟩
  | cons p rest ih =>
    rw [validateProviders] at h
    split at h
    · cases h
    next hnew =>
    split at h
    · cases h
    obtain ⟨hrest, hseen⟩ := ih h
    rw [List.contains_iff_mem] at hnew
    refine ⟨List.nodup_cons.2 ⟨fun hmem => ?_, hrest⟩, fun q hq => ?_⟩
    · obtain ⟨q, hq, hid⟩ := List.mem_map.1 hmem
      exact hseen q hq (hid ▸ List.mem_cons_self)
    · rcases List.mem_cons.1 hq with rfl | hq
      · exact hnew
      · exact fun hmem => hseen q hq (List.mem_cons_of_mem _ hmem)

/-- Where no id is found to stand twice, none does. -/
theorem nodup_of_firstRepeat?_eq_none {ids : List String} (h : firstRepeat? ids = none) :
    ids.Nodup := by
  cases ids with
  | nil => exact List.nodup_nil
  | cons first rest =>
    have hnone := List.findSome?_eq_none_iff.1 h
    rw [List.nodup_iff_getElem?_ne_getElem?]
    intro i j hij hj heq
    have hentry := hnone ((first :: rest)[j], j) (List.mk_mem_zipIdx_iff_getElem?.2
      (List.getElem?_eq_getElem hj))
    dsimp only at hentry
    rw [if_pos] at hentry
    · cases hentry
    rw [List.contains_iff_mem, List.mem_iff_getElem?]
    refine ⟨i, ?_⟩
    rw [List.getElem?_take, if_pos hij, heq, List.getElem?_eq_getElem hj]

theorem nodup_of_validate (h : c.validate = .ok ()) :
    (c.providers.map (·.id)).Nodup ∧ (c.hosts.map (·.id)).Nodup := by
  unfold validate at h
  split at h
  · cases h
  next hproviders =>
  split at h
  · cases h
  next hhosts =>
  exact ⟨(nodup_of_validateProviders hproviders).1, nodup_of_firstRepeat?_eq_none hhosts⟩

/-- No provider id of an accepted configuration stands twice. -/
theorem Accepted.nodup_providerIds (h : c.Accepted) : (c.providers.map (·.id)).Nodup :=
  (nodup_of_validate h.validate).1

/-- No host id of an accepted configuration stands twice. -/
theorem Accepted.nodup_hostIds (h : c.Accepted) : (c.hosts.map (·.id)).Nodup :=
  (nodup_of_validate h.validate).2

end MotifQuery.ServerConfig
