import MotifQuery.Motif.Search

/-!
# `MotifQuery.Proofs.Motif.SearchOrder`: the search places every entity once

The search order picks the best of the remaining entities until none remains. Whatever
the ranks are, the pick is one of the remaining entities, so the order is a permutation of
the entities (`Motif.searchOrder_perm`).
-/

set_option autoImplicit false

namespace MotifQuery.Motif

/-- The best entity is one of those to choose from. -/
theorem mem_of_best? {m : Motif} {placed remaining : List String} {entity : String}
    (h : m.best? placed remaining = some entity) : entity ∈ remaining := by
  induction remaining generalizing entity with
  | nil => cases h
  | cons first rest ih =>
    rw [best?] at h
    split at h
    · cases h
      exact List.mem_cons_self
    · next other hother =>
      split at h <;> cases h
      · exact List.mem_cons_of_mem _ (ih hother)
      · exact List.mem_cons_self

/-- There is a best entity unless there is none to choose from. -/
theorem best?_eq_none_iff {m : Motif} {placed remaining : List String} :
    m.best? placed remaining = none ↔ remaining = [] := by
  cases remaining with
  | nil => exact ⟨fun _ => rfl, fun _ => rfl⟩
  | cons first rest =>
    rw [best?]
    refine ⟨fun h => ?_, fun h => nomatch h⟩
    split at h
    · cases h
    · split at h <;> cases h

/-- With enough picks every remaining entity is placed. -/
theorem orderFrom_perm (m : Motif) {n : Nat} {placed remaining : List String}
    (h : remaining.length = n) : (m.orderFrom n placed remaining).Perm remaining := by
  -- the fuel is the number of the entities that remain
  induction n generalizing placed remaining with
  | zero =>
    rw [List.length_eq_zero_iff.1 h]
    exact List.Perm.nil
  | succ n ih =>
    rw [orderFrom]
    cases hbest : m.best? placed remaining with
    | none =>
      rw [best?_eq_none_iff.1 hbest] at h
      cases h
    | some entity =>
      have hmem := mem_of_best? hbest
      have hlength : (remaining.erase entity).length = n := by
        rw [List.length_erase_of_mem hmem, h]
        rfl
      exact ((ih hlength).cons entity).trans (List.perm_cons_erase hmem).symm

/-- The search order holds every entity as often as the motif does. -/
theorem searchOrder_perm (m : Motif) : m.searchOrder.Perm m.entities :=
  m.orderFrom_perm rfl

end MotifQuery.Motif
