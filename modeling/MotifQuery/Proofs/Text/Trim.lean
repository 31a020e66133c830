import Mathlib.Data.List.TakeWhile
import MotifQuery.Text.Blank

/-!
# `MotifQuery.Proofs.Text.Trim`: trimming

Blanks around a text are trimmed away (`trim_append`) and nothing else is (`exists_trim`).
A text that neither begins nor ends with a blank is what trimming leaves of it
(`Tight.trim_eq`).
-/

set_option autoImplicit false

namespace MotifQuery.Text

/-- All characters are blank. -/
def Blank (cs : List Char) : Prop :=
  ∀ c ∈ cs, isBlank c = true

/-- The text is not empty and neither begins nor ends with a blank. -/
structure Tight (cs : List Char) : Prop where
  head : ∃ c rest, cs = c :: rest ∧ isBlank c = false
  last : ∃ rest c, cs = rest ++ [c] ∧ isBlank c = false

theorem Blank.dropWhile_eq_nil {cs : List Char} (h : Blank cs) : cs.dropWhile isBlank = [] :=
  List.dropWhile_eq_nil_iff.2 h

theorem Blank.append {cs ds : List Char} (hc : Blank cs) (hd : Blank ds) : Blank (cs ++ ds) := by
  intro c hmem
  rcases List.mem_append.1 hmem with h | h
  · exact hc c h
  · exact hd c h

theorem Blank.reverse {cs : List Char} (h : Blank cs) : Blank cs.reverse :=
  fun c hmem => h c (List.mem_reverse.1 hmem)

theorem trimStart_append {before : List Char} (h : Blank before) (cs : List Char) :
    trimStart (before ++ cs) = trimStart cs := by
  unfold trimStart
  rw [List.dropWhile_append, h.dropWhile_eq_nil]
  rfl

theorem trimEnd_append (cs : List Char) {after : List Char} (h : Blank after) :
    trimEnd (cs ++ after) = trimEnd cs := by
  unfold trimEnd
  rw [List.reverse_append, List.dropWhile_append, h.reverse.dropWhile_eq_nil]
  rfl

theorem trim_eq_nil_of_blank {cs : List Char} (h : Blank cs) : trim cs = [] := by
  unfold trim trimStart
  rw [h.dropWhile_eq_nil]
  rfl

theorem blank_of_trim_eq_nil {cs : List Char} (h : trim cs = []) : Blank cs := by
  have hstart : Blank (trimStart cs) := by
    have hend := List.dropWhile_eq_nil_iff.1 (List.reverse_eq_nil_iff.1 h)
    exact fun c hc => hend c (List.mem_reverse.2 hc)
  rw [← List.takeWhile_append_dropWhile (p := isBlank) (l := cs)]
  exact Blank.append (fun c hc => List.mem_takeWhile_imp hc) hstart

/-- Blanks around a text are trimmed away. -/
theorem trim_append {before after : List Char} (hb : Blank before) (cs : List Char)
    (ha : Blank after) : trim (before ++ cs ++ after) = trim cs := by
  by_cases hcs : Blank cs
  · rw [trim_eq_nil_of_blank hcs, trim_eq_nil_of_blank ((hb.append hcs).append ha)]
  · -- what is left at the start is not empty, so trimming the end stops there
    have hne : (cs.dropWhile isBlank).isEmpty = false := by
      rw [List.isEmpty_eq_false_iff, Ne, List.dropWhile_eq_nil_iff]
      exact hcs
    have hstart : trimStart (before ++ cs ++ after) = trimStart cs ++ after := by
      rw [List.append_assoc, trimStart_append hb]
      show (cs ++ after).dropWhile isBlank = cs.dropWhile isBlank ++ after
      rw [List.dropWhile_append, hne]
      rfl
    rw [trim, hstart, trimEnd_append _ ha, trim]

/-- Trimming takes away blanks only. -/
theorem exists_trim (cs : List Char) :
    ∃ before after, Blank before ∧ Blank after ∧ cs = before ++ trim cs ++ after := by
  refine ⟨cs.takeWhile isBlank, ((trimStart cs).reverse.takeWhile isBlank).reverse,
    fun c hc => List.mem_takeWhile_imp hc,
    fun c hc => List.mem_takeWhile_imp (List.mem_reverse.1 hc), ?_⟩
  rw [List.append_assoc, trim, trimEnd, ← List.reverse_append, List.takeWhile_append_dropWhile,
    List.reverse_reverse, trimStart, List.takeWhile_append_dropWhile]

theorem trim_trim (cs : List Char) : trim (trim cs) = trim cs := by
  obtain ⟨before, after, hb, ha, hcs⟩ := exists_trim cs
  rw [← trim_append hb (trim cs) ha, ← hcs]

theorem mem_trim {cs : List Char} {c : Char} (h : c ∈ cs) (hblank : isBlank c = false) :
    c ∈ trim cs := by
  obtain ⟨before, after, hb, ha, hcs⟩ := exists_trim cs
  have hnot : ∀ {ds}, Blank ds → c ∉ ds := fun hds hc =>
    Bool.false_ne_true (hblank.symm.trans (hds c hc))
  rw [hcs, List.mem_append, List.mem_append] at h
  exact (h.resolve_right (hnot ha)).resolve_left (hnot hb)

theorem trimEnd_isPrefix (cs : List Char) : trimEnd cs <+: cs := by
  rw [← List.reverse_suffix, trimEnd, List.reverse_reverse]
  exact List.dropWhile_suffix isBlank

/-- A text whose characters are not blank is tight. -/
theorem tight_of_all {cs : List Char} (hne : cs ≠ [])
    (h : cs.all (fun c => !isBlank c) = true) : Tight cs := by
  have hblank : ∀ c ∈ cs, isBlank c = false := fun c hc =>
    Bool.not_eq_eq_eq_not.1 (List.all_eq_true.1 h c hc)
  constructor
  · cases cs with
    | nil => exact absurd rfl hne
    | cons c rest => exact ⟨c, rest, rfl, hblank c List.mem_cons_self⟩
  · obtain ⟨rest, c, rfl⟩ := (List.eq_nil_or_concat cs).resolve_left hne
    exact ⟨rest, c, List.concat_eq_append, hblank c (by simp)⟩

namespace Tight

variable {cs ds : List Char}

theorem ne_nil (h : Tight cs) : cs ≠ [] := by
  obtain ⟨c, rest, rfl, -⟩ := h.head
  exact List.cons_ne_nil c rest

/-- Between two tight texts anything may stand. -/
theorem append (hc : Tight cs) (middle : List Char) (hd : Tight ds) :
    Tight (cs ++ middle ++ ds) where
  head := by
    obtain ⟨c, rest, rfl, hblank⟩ := hc.head
    exact ⟨c, rest ++ middle ++ ds, rfl, hblank⟩
  last := by
    obtain ⟨rest, c, rfl, hblank⟩ := hd.last
    exact ⟨cs ++ middle ++ rest, c, (List.append_assoc _ _ _).symm, hblank⟩

theorem trimStart_eq (h : Tight cs) (after : List Char) :
    trimStart (cs ++ after) = cs ++ after := by
  obtain ⟨c, rest, rfl, hblank⟩ := h.head
  exact List.dropWhile_cons_of_neg (by rw [hblank]; exact Bool.false_ne_true)

/-- What stands behind a tight text is trimmed alone. -/
theorem trimEnd_append (before : List Char) (h : Tight cs) (ds : List Char) :
    trimEnd (before ++ (cs ++ ds)) = before ++ (cs ++ trimEnd ds) := by
  obtain ⟨rest, c, rfl, hblank⟩ := h.last
  -- reversed, the text before `ds` begins with a character that stays
  have hkeep : ((before ++ (rest ++ [c])).reverse).dropWhile isBlank
      = (before ++ (rest ++ [c])).reverse := by
    rw [← List.append_assoc, List.reverse_concat]
    exact List.dropWhile_cons_of_neg (by rw [hblank]; exact Bool.false_ne_true)
  unfold trimEnd
  rw [← List.append_assoc, List.reverse_append, List.dropWhile_append]
  split
  · next hempty => rw [List.isEmpty_iff.1 hempty, hkeep]; simp
  · simp

theorem trimEnd_eq (before : List Char) (h : Tight cs) : trimEnd (before ++ cs) = before ++ cs := by
  have hend := h.trimEnd_append before []
  have hnil : trimEnd [] = [] := rfl
  rwa [hnil, List.append_nil] at hend

/-- Trimming leaves a tight text as it is. -/
theorem trim_eq (h : Tight cs) : trim cs = cs := by
  have hstart := h.trimStart_eq []
  have hend := h.trimEnd_eq []
  rw [List.append_nil] at hstart
  rw [List.nil_append] at hend
  rw [trim, hstart, hend]

/-- What stands behind a tight text is trimmed at its end only. -/
theorem trim_append_end {before : List Char} (hb : Blank before) (h : Tight cs)
    (ds : List Char) : trim (before ++ (cs ++ ds)) = cs ++ trimEnd ds := by
  rw [trim, trimStart_append hb, h.trimStart_eq]
  exact h.trimEnd_append [] ds

/-- Trimming leaves the tight text between blanks. -/
theorem trim_append_eq {before after : List Char} (hb : Blank before) (h : Tight cs)
    (ha : Blank after) : trim (before ++ cs ++ after) = cs := by
  rw [trim_append hb cs ha, h.trim_eq]

end Tight

end MotifQuery.Text
