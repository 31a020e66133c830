import Mathlib.Data.List.Basic
import Mathlib.Data.List.Induction

/-!
# `MotifQuery.Proofs.Repeats`: lists in the order of first mention

Erasing the repeats of a list keeps the first of each. Read from the end of the list, an
entry that is related to none before it comes last (`eraseDupsBy_concat`), so nothing is left
twice (`nodup_eraseDups`), and a list that takes in what is new to it is the list without repeats
(`foldl_mention_eq_eraseDups`).
-/

set_option autoImplicit false

namespace MotifQuery

variable {α : Type}

/-- Erasing repeats keeps a last entry that is related to none before it. -/
theorem eraseDupsBy_concat (r : α → α → Bool) (xs : List α) (x : α) :
    (xs ++ [x]).eraseDupsBy r
      = if (xs.eraseDupsBy r).any (r x) then xs.eraseDupsBy r else xs.eraseDupsBy r ++ [x] := by
  suffices h : ∀ seen, List.eraseDupsBy.loop r (xs ++ [x]) seen
      = if (List.eraseDupsBy.loop r xs seen).any (r x) then List.eraseDupsBy.loop r xs seen
        else List.eraseDupsBy.loop r xs seen ++ [x] from h []
  induction xs with
  | nil =>
    intro seen
    simp only [List.nil_append, List.eraseDupsBy.loop, List.any_reverse]
    split <;> simp [*]
  | cons y rest ih =>
    intro seen
    simp only [List.cons_append, List.eraseDupsBy.loop]
    by_cases hy : seen.any (r y) = true
    · simpa only [hy] using ih seen
    · rw [Bool.not_eq_true] at hy
      simpa only [hy] using ih (y :: seen)

/-- Every entry is related to one that stays. -/
theorem exists_mem_eraseDupsBy {r : α → α → Bool} (hr : ∀ x, r x x = true) {xs : List α}
    {x : α} (hx : x ∈ xs) : ∃ y ∈ xs.eraseDupsBy r, r x y = true := by
  -- from the end, where a repeat is dropped for an earlier element
  induction xs using List.reverseRecOn with
  | nil => cases hx
  | append_singleton rest last ih =>
    rw [eraseDupsBy_concat]
    rcases List.mem_append.1 hx with hx | hx
    · obtain ⟨y, hy, hxy⟩ := ih hx
      split
      · exact ⟨y, hy, hxy⟩
      · exact ⟨y, List.mem_append_left _ hy, hxy⟩
    · rw [List.mem_singleton.1 hx]
      split
      · next hany => exact List.any_eq_true.1 hany
      · exact ⟨last, List.mem_append_right _ (List.mem_singleton_self _), hr last⟩

/-- Without its repeats a list holds nothing twice. -/
theorem nodup_eraseDups [DecidableEq α] (xs : List α) : xs.eraseDups.Nodup := by
  induction xs using List.reverseRecOn with
  | nil => exact List.nodup_nil
  | append_singleton rest x ih =>
    rw [List.eraseDups, eraseDupsBy_concat]
    split
    · exact ih
    · next hnew =>
      refine List.pairwise_append.2 ⟨ih, List.pairwise_singleton _ _, fun y hy z hz hyz => hnew ?_⟩
      rw [List.mem_singleton.1 hz] at hyz
      exact List.any_eq_true.2 ⟨y, hy, beq_iff_eq.2 hyz.symm⟩

/-- Taking in what is new, entry by entry, erases the repeats. -/
theorem foldl_mention_eq_eraseDups [DecidableEq α] (xs ys : List α) :
    ys.foldl (fun seen y => if y ∈ seen then seen else seen ++ [y]) xs.eraseDups
      = (xs ++ ys).eraseDups := by
  induction ys using List.reverseRecOn with
  | nil => rw [List.append_nil, List.foldl_nil]
  | append_singleton rest y ih =>
    rw [List.foldl_concat, ih, ← List.append_assoc]
    refine Eq.trans ?_ (eraseDupsBy_concat (· == ·) (xs ++ rest) y).symm
    have hmem : y ∈ (xs ++ rest).eraseDups ↔ (xs ++ rest).eraseDups.any (y == ·) = true := by
      simp
    simp only [hmem]
    rfl

end MotifQuery
