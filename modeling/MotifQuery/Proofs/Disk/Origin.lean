import MotifQuery.Proofs.Disk.Directory

/-!
# `MotifQuery.Proofs.Disk.Origin`: where the files of a disk come from

From one disk to another (`Disk.Adds`) no directory goes, and a file that is there stood at the
same place with the same content before, unless it is one of those that are said to be added.
Every operation is such a step: writing adds a file under the name that is written
(`adds_write`), removing a file and making directories add none. Steps compose
(`Adds.trans`), so what a program may add is read off the operations that it performs.
-/

set_option autoImplicit false

namespace MotifQuery.Disk

open Text

/-- No directory goes, and a file is new or has another content only where `R` allows it. -/
structure Adds (R : DiskPlace → Bytes → Prop) (d e : Disk) : Prop where
  directories : DirectoriesIn d e
  files : ∀ p content, e.node? p = some (.file content) →
    d.node? p = some (.file content) ∨ R p content

/-- Nothing is added. -/
def Nothing (_ : DiskPlace) (_ : Bytes) : Prop :=
  False

variable {R R' : DiskPlace → Bytes → Prop} {d e f : Disk} {path dir : String} {content : Bytes}
  {p : DiskPlace}

namespace Adds

theorem refl (R : DiskPlace → Bytes → Prop) (d : Disk) : Adds R d d :=
  ⟨fun _ h => h, fun _ _ h => .inl h⟩

theorem trans (hde : Adds R d e) (hef : Adds R e f) : Adds R d f where
  directories p hp := hef.directories p (hde.directories p hp)
  files p content hp := (hef.files p content hp).elim (hde.files p content) .inr

theorem mono (h : Adds R d e) (hR : ∀ p content, R p content → R' p content) : Adds R' d e :=
  ⟨h.directories, fun p content hp => (h.files p content hp).imp_right (hR p content)⟩

/-- A step that adds nothing may be said to add anything. -/
theorem of_nothing (h : Adds Nothing d e) (R : DiskPlace → Bytes → Prop) : Adds R d e :=
  h.mono fun _ _ => False.elim

/-- A file that is found was found before, or was added where the path leads. -/
theorem lookup_file (hopens : d.Opens dir p) (h : Adds R d e) {name : String}
    (hname : PlainName name) (hfile : e.lookup (join dir name) = .ok (.file content)) :
    d.lookup (join dir name) = .ok (.file content) ∨ R (p.child name) content := by
  have husable := usable_of_lookup hfile
  have hnode := ((hopens.mono h.directories).lookup_join hname husable).1 hfile
  exact (h.files _ content hnode).imp_left (hopens.lookup_join hname husable).2

end Adds

/-! ### Operations -/

/-- A file that is written is added under the last name of the path. -/
theorem adds_write (h : d.write path content = .ok e)
    (hR : ∀ p q, d.target path = .ok ⟨q, false⟩ → p.key = q.key → R p content) : Adds R d e := by
  obtain ⟨q, htarget, hnode, rfl⟩ := eq_put_of_write h
  refine ⟨directoriesIn_put_file hnode, fun p other hp => ?_⟩
  rw [node?_put] at hp
  split at hp
  · cases hp
  · split at hp
    · next hkey =>
      cases hp
      exact .inr (hR p q htarget hkey)
    · exact .inl hp

theorem adds_remove (h : d.remove path = .ok e) : Adds Nothing d e := by
  obtain ⟨q, -, hnode, rfl⟩ := eq_erase_of_remove h
  refine ⟨directoriesIn_erase hnode, fun p other hp => .inl ?_⟩
  have hcomponents := components_of_node?_file hp
  rw [node?, if_neg hcomponents] at hp ⊢
  rw [Dict.get?_erase] at hp
  split at hp
  · cases hp
  · exact hp

theorem adds_makeDirectory (h : d.makeDirectory path = .ok e) : Adds Nothing d e := by
  rw [makeDirectory, bind_eq_ok_iff] at h
  obtain ⟨⟨q, asDirectory⟩, -, h⟩ := h
  split at h
  · cases h
  · cases h
    refine ⟨directoriesIn_put_directory d q, fun p other hp => .inl ?_⟩
    rw [node?_put] at hp
    split at hp
    · cases hp
    · split at hp
      · cases hp
      · exact hp

theorem adds_ensureDirectory (h : d.ensureDirectory path = .ok e) : Adds Nothing d e := by
  unfold ensureDirectory at h
  split at h
  · next hmake =>
    cases h
    exact adds_makeDirectory hmake
  · split at h
    · cases h
      exact .refl _ d
    · cases h

theorem adds_makeFrom {paths : List String} (h : d.makeFrom paths = .ok e) :
    Adds Nothing d e := by
  induction paths generalizing e with
  | nil =>
    cases h
    exact .refl _ d
  | cons first around ih =>
    rw [makeFrom] at h
    split at h
    · split at h
      · next hmake => exact (ih hmake).trans (adds_ensureDirectory h)
      · cases h
    · exact adds_ensureDirectory h

theorem adds_makeDirectories (h : d.makeDirectories path = .ok e) : Adds Nothing d e :=
  adds_makeFrom h

/-! ### Directories that are made -/

theorem exists_opens_of_ensureDirectory (h : d.ensureDirectory path = .ok e) :
    ∃ p, e.Opens path p := by
  -- the directory is made, or it was there before
  unfold ensureDirectory at h
  split at h
  · next made hmake =>
    cases h
    rw [makeDirectory, bind_eq_ok_iff] at hmake
    obtain ⟨⟨q, asDirectory⟩, htarget, hmake⟩ := hmake
    split at hmake
    · cases hmake
    · next hnone =>
      cases hmake
      refine ⟨q, ⟨asDirectory, target_mono (directoriesIn_put_directory d q) htarget⟩, ?_⟩
      rw [node?_put]
      split
      · rfl
      · exact if_pos rfl
  · split at h
    · next hthere =>
      cases h
      unfold isDirectory at hthere
      split at hthere
      · next hlookup =>
        rw [lookup, bind_eq_ok_iff] at hlookup
        obtain ⟨⟨q, asDirectory⟩, htarget, hnode⟩ := hlookup
        split at hnode
        · cases hnode
        · next hdirectory => exact ⟨q, ⟨asDirectory, htarget⟩, hdirectory⟩
        · split at hnode <;> cases hnode
      · cases hthere
    · cases h

/-- A directory that is made is there. -/
theorem exists_opens_of_makeDirectories (hempty : path ≠ "") (h : d.makeDirectories path = .ok e) :
    ∃ p, e.Opens path p := by
  obtain ⟨around, hopenings⟩ := exists_openings_eq hempty
  rw [makeDirectories, hopenings, makeFrom] at h
  split at h
  · split at h
    · exact exists_opens_of_ensureDirectory h
    · cases h
  · exact exists_opens_of_ensureDirectory h

/-- A directory that was made and has stayed is made again by doing nothing. -/
theorem makeDirectories_again (hmake : d.makeDirectories path = .ok e)
    (hdirectories : DirectoriesIn e f) : f.makeDirectories path = .ok f := by
  by_cases hempty : path = ""
  · rw [hempty]
    rfl
  · obtain ⟨q, hopens⟩ := exists_opens_of_makeDirectories hempty hmake
    exact (hopens.mono hdirectories).makeDirectories_eq

end MotifQuery.Disk
