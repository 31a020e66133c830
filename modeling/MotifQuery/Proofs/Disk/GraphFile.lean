import Mathlib.Data.List.Infix
import MotifQuery.Disk.GraphFile
import MotifQuery.Disk.Name
import MotifQuery.Proofs.Disk.Files

/-!
# `MotifQuery.Proofs.Disk.GraphFile`: what the ending of a name says

The endings of the formats differ in their last character, so the ending of a name says at
most one format, and whatever stands before the ending does not change it. A file whose name
ends so is read in that format (`readGraph_of_lookup`).
-/

set_option autoImplicit false

namespace MotifQuery

open Text

namespace GraphFormat

/-- The endings differ in their last character. -/
theorem eq_of_getLast?_suffix {f g : GraphFormat}
    (h : f.suffix.toList.getLast? = g.suffix.toList.getLast?) : f = g := by
  cases f <;> cases g <;> first | rfl | exact absurd h (by decide)

theorem suffix_ne_nil (f : GraphFormat) : f.suffix.toList ≠ [] := by
  cases f <;> decide

theorem stroke_not_mem_suffix (f : GraphFormat) : '/' ∉ f.suffix.toList := by
  cases f <;> decide

/-- Every ending opens with a dot. -/
theorem exists_dot_suffix (f : GraphFormat) : ∃ rest, f.suffix.toList = '.' :: rest := by
  cases f <;> exact ⟨_, rfl⟩

/-- A name ends in the ending of one format only. -/
theorem eq_of_endsWith {name : String} {f g : GraphFormat} (hf : endsWith name f.suffix = true)
    (hg : endsWith name g.suffix = true) : f = g := by
  obtain ⟨before, hbefore⟩ := List.isSuffixOf_iff_suffix.1 hf
  obtain ⟨before', hbefore'⟩ := List.isSuffixOf_iff_suffix.1 hg
  apply eq_of_getLast?_suffix
  rw [← List.getLast?_append_of_ne_nil before f.suffix_ne_nil, hbefore, ← hbefore',
    List.getLast?_append_of_ne_nil before' g.suffix_ne_nil]

theorem mem_all (f : GraphFormat) : f ∈ all := by
  cases f <;> decide

theorem ofName?_eq_some_iff {name : String} {f : GraphFormat} :
    ofName? name = some f ↔ endsWith name f.suffix = true := by
  have hends {g : GraphFormat} (h : ofName? name = some g) : endsWith name g.suffix = true := by
    unfold ofName? at h
    simpa using List.find?_some h
  constructor
  · exact hends
  · intro h
    cases hfound : ofName? name with
    | none => exact absurd h (List.find?_eq_none.1 hfound f f.mem_all)
    | some g => rw [eq_of_endsWith (hends hfound) h]

/-- A name that ends in the ending of a format is in that format. -/
@[simp]
theorem ofName?_append_suffix (start : String) (f : GraphFormat) :
    ofName? (start ++ f.suffix) = some f := by
  rw [ofName?_eq_some_iff, endsWith, List.isSuffixOf_iff_suffix, String.toList_append]
  exact List.suffix_append _ _

/-- An ending can be taken off a name in one way only. -/
theorem append_suffix_inj {name other : String} {f g : GraphFormat}
    (h : name ++ f.suffix = other ++ g.suffix) : name = other := by
  have hformat := f.ofName?_append_suffix name
  rw [h, ofName?_append_suffix, Option.some.injEq] at hformat
  rw [hformat] at h
  exact (String.append_left_inj _).1 h

end GraphFormat

/-- The path of a name in a directory ends as the name does. -/
theorem Disk.exists_join_eq (dir name : String) : ∃ start, Disk.join dir name = start ++ name := by
  rw [Disk.join]
  split
  · exact ⟨"", by simp⟩
  · split
    · exact ⟨dir, rfl⟩
    · exact ⟨dir ++ "/", rfl⟩

theorem GraphFormat.ofName?_join (dir id : String) (f : GraphFormat) :
    ofName? (Disk.join dir (id ++ f.suffix)) = some f := by
  obtain ⟨start, hstart⟩ := Disk.exists_join_eq dir (id ++ f.suffix)
  rw [hstart, ← String.append_assoc]
  exact f.ofName?_append_suffix _

/-- A file whose name says a format is read in that format. -/
theorem Disk.readGraph_of_lookup {d : Disk} {path : String} {content : Bytes} {f : GraphFormat}
    (hname : GraphFormat.ofName? path = some f) (h : d.lookup path = .ok (.file content)) :
    d.readGraph path = f.read content := by
  unfold Disk.readGraph
  rw [h]
  show decodeGraph path content = _
  unfold decodeGraph
  rw [hname]

/-! ### Extensions -/

theorem dot_not_mem_extension {path ext : String} (h : extension? path = some ext) :
    '.' ∉ ext.toList := by
  unfold extension? at h
  split at h
  · next stem rest hsplit =>
    split at h
    · cases h
    · cases h
      obtain ⟨name, -, hname⟩ := Option.bind_eq_some_iff.1 hsplit
      rw [String.toList_ofList]
      exact not_mem_of_splitLast? hname
  · cases h

/-- A dot and an extension end in the ending of a format only when they are that ending. -/
theorem GraphFormat.eq_suffix_of_extension {path ext : String} {f : GraphFormat}
    (h : extension? path = some ext) (hf : ofName? ("." ++ ext) = some f) :
    "." ++ ext = f.suffix := by
  have hdot := dot_not_mem_extension h
  obtain ⟨before, hbefore⟩ := List.isSuffixOf_iff_suffix.1 (ofName?_eq_some_iff.1 hf)
  obtain ⟨rest, hrest⟩ := f.exists_dot_suffix
  rw [hrest, String.toList_append] at hbefore
  cases before with
  | nil =>
    rw [← String.toList_inj, hrest, String.toList_append, ← hbefore]
    rfl
  | cons c before =>
    have hext : ext.toList = before ++ '.' :: rest := (List.cons.inj hbefore).2.symm
    rw [hext] at hdot
    simp at hdot

end MotifQuery
