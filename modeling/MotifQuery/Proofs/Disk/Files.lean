import MotifQuery.Disk.Basic
import MotifQuery.Proofs.Dict
import MotifQuery.Proofs.Except
import MotifQuery.Proofs.Text.Split
import MotifQuery.Proofs.Text.Utf8

/-!
# `MotifQuery.Proofs.Disk.Files`: files that stay where they are

A file is found by a walk along directories and by the key at its end. An operation that
takes no directory away leaves every walk as it was (`target_mono`), and it touches one key
only. So a file stays (`KeepsFile`) when something is written, made or removed under another
name: the name of a file is the last component of its path (`lastName`), and the key at the
end of the walk ends in it too (`lastName_key`).
-/

set_option autoImplicit false

namespace MotifQuery

open Text

/-! ### Last names -/

/-- What stands behind the last stroke of a path. -/
def lastName (path : String) : String :=
  String.ofList ((pieces '/' path.toList).getLastD [])

theorem lastName_of_not_mem {name : String} (h : '/' ∉ name.toList) : lastName name = name := by
  rw [lastName, pieces_of_not_mem h]
  exact String.ofList_toList

@[simp]
theorem lastName_stroke (start name : String) :
    lastName (start ++ "/" ++ name) = lastName name := by
  have htext : (start ++ "/" ++ name).toList = start.toList ++ '/' :: name.toList := by simp
  have hne := pieces_ne_nil '/' name.toList
  rw [lastName, lastName, htext, pieces_append_sep, List.getLastD_eq_getLast?,
    List.getLastD_eq_getLast?, List.getLast?_append_of_ne_nil _ hne]

/-- A text without strokes goes to the last name. -/
theorem lastName_append (start : String) {ending : String} (h : '/' ∉ ending.toList) :
    lastName (start ++ ending) = lastName start ++ ending := by
  suffices hcs : ∀ cs ds : List Char, '/' ∉ ds →
      (pieces '/' (cs ++ ds)).getLastD [] = (pieces '/' cs).getLastD [] ++ ds by
    rw [lastName, lastName, String.toList_append, hcs _ _ h, String.ofList_append,
      String.ofList_toList]
  intro cs ds
  induction ds generalizing cs with
  | nil => simp
  | cons d ds ih =>
    intro hds
    obtain ⟨hd, hds⟩ := List.ne_and_not_mem_of_not_mem_cons hds
    obtain ⟨init, last, hcs, hconcat⟩ := pieces_concat (Ne.symm hd) cs
    have hsplit : cs ++ d :: ds = (cs ++ [d]) ++ ds := by simp
    rw [hsplit, ih _ hds, hconcat, hcs]
    simp

/-! ### Walks -/

namespace Disk

/-- The path of a name in a directory ends in the last name of the name. -/
@[simp]
theorem lastName_join (dir name : String) : lastName (join dir name) = lastName name := by
  rw [join]
  split
  · rfl
  · split
    · next hdir =>
      rcases hdir with rfl | hdir
      · simp
      · obtain ⟨start, hstart⟩ := List.isSuffixOf_iff_suffix.1 hdir
        have hdir : dir = String.ofList start ++ "/" := by
          rw [← String.toList_inj, String.toList_append, String.toList_ofList]
          exact hstart.symm
        rw [hdir, lastName_stroke]
    · exact lastName_stroke dir name

/-- Where names follow, the first one is entered. -/
theorem walk_cons {d : Disk} {here : DiskPlace} {name : String} {rest : List String}
    (hnil : rest ≠ []) (hstroke : rest ≠ [""]) :
    d.walk here (name :: rest) = match d.enter here name with
      | .ok there => d.walk there rest
      | .error fault => .error fault :=
  walk.eq_4 d here name rest hnil hstroke

/-- A walk that asks for no directory ends at the last of its names. -/
theorem exists_child_of_walk {d : Disk} {here : DiskPlace} {names : List String}
    {place : DiskPlace} (h : d.walk here names = .ok ⟨place, false⟩) :
    ∃ (around : DiskPlace) (name : String),
      names.getLast? = some name ∧ place = around.child name := by
  fun_induction walk d here names with
  | case1 | case2 | case3 | case4 | case6 | case7 | case8 | case9 | case11 => cases h
  | case5 here name => exact ⟨here, name, rfl, by cases h; rfl⟩
  | case10 here name rest hnil hstroke there henter ih =>
    obtain ⟨around, last, hlast, hplace⟩ := ih h
    refine ⟨around, last, ?_, hplace⟩
    rw [List.getLast?_cons, hlast]
    rfl

theorem lastName_key_child (around : DiskPlace) {name : String} (h : '/' ∉ name.toList) :
    lastName (around.child name).key = name := by
  obtain ⟨absolute, components⟩ := around
  have hstart (start : String) : lastName ((if absolute then "/" else "") ++ start)
      = lastName start := by
    cases absolute
    · simp
    · exact lastName_stroke "" start
  show lastName ((if absolute then "/" else "") ++ String.intercalate "/" (components ++ [name]))
    = name
  rw [hstart]
  by_cases hnil : components = []
  · rw [hnil, List.nil_append, String.intercalate_singleton]
    exact lastName_of_not_mem h
  · rw [String.intercalate_append_of_ne_nil hnil (List.cons_ne_nil _ _), lastName_stroke,
      String.intercalate_singleton]
    exact lastName_of_not_mem h

/-- The key at the end of a path has the last name of the path. -/
theorem lastName_key {d : Disk} {path : String} {place : DiskPlace}
    (h : d.target path = .ok ⟨place, false⟩) : lastName place.key = lastName path := by
  unfold target at h
  dsimp only at h
  split at h
  · cases h
  · split at h
    · cases h
    · split at h
      · cases h
      · obtain ⟨around, name, hlast, rfl⟩ := exists_child_of_walk h
        rw [List.getLast?_map, Option.map_eq_some_iff] at hlast
        obtain ⟨piece, hpiece, rfl⟩ := hlast
        have hstroke := not_mem_of_mem_pieces (List.mem_of_getLast? hpiece)
        rw [lastName_key_child around (by rwa [String.toList_ofList]), lastName,
          List.getLastD_eq_getLast?, hpiece]
        rfl

/-- Every directory of the first disk is one of the second. -/
def DirectoriesIn (d e : Disk) : Prop :=
  ∀ p, d.node? p = some .directory → e.node? p = some .directory

theorem DirectoriesIn.trans {d e f : Disk} (hde : DirectoriesIn d e) (hef : DirectoriesIn e f) :
    DirectoriesIn d f :=
  fun p hp => hef p (hde p hp)

theorem enter_mono {d e : Disk} (h : DirectoriesIn d e) {here there : DiskPlace} {name : String}
    (henter : d.enter here name = .ok there) : e.enter here name = .ok there := by
  unfold enter at henter ⊢
  split at henter
  · next hname => rwa [if_pos hname]
  · next hname =>
    rw [if_neg hname]
    split at henter
    · next hup => rwa [if_pos hup]
    · next hup =>
      rw [if_neg hup]
      split at henter
      · cases henter
      · next hlong =>
        rw [if_neg hlong]
        split at henter
        · next hnode =>
          rw [h _ hnode]
          exact henter
        · cases henter
        · cases henter

theorem walk_mono {d e : Disk} (h : DirectoriesIn d e) {here : DiskPlace} {names : List String}
    {t : Target} (hwalk : d.walk here names = .ok t) : e.walk here names = .ok t := by
  fun_induction walk d here names with
  | case1 => exact hwalk
  | case2 here name hname => rw [walk, if_pos hname]; exact hwalk
  | case3 here hname => rw [walk, if_neg hname, if_pos rfl]; exact hwalk
  | case4 | case8 | case11 => cases hwalk
  | case5 here name hname hup hlong =>
    rw [walk, if_neg hname, if_neg hup, if_neg hlong]
    exact hwalk
  | case6 here name hname => rw [walk, if_pos hname]; exact hwalk
  | case7 here hname => rw [walk, if_neg hname, if_pos rfl]; exact hwalk
  | case9 here name hname hup hlong =>
    rw [walk, if_neg hname, if_neg hup, if_neg hlong]
    exact hwalk
  | case10 here name rest hnil hstroke there henter ih =>
    rw [walk_cons hnil hstroke, enter_mono h henter]
    exact ih hwalk

/-- Where no directory is taken away, a path leads where it led. -/
theorem target_mono {d e : Disk} (h : DirectoriesIn d e) {path : String} {t : Target}
    (htarget : d.target path = .ok t) : e.target path = .ok t := by
  unfold target at htarget ⊢
  dsimp only at htarget ⊢
  split at htarget
  · cases htarget
  · next hnull =>
    rw [if_neg hnull]
    split at htarget
    · cases htarget
    · next hempty =>
      rw [if_neg hempty]
      split at htarget
      · cases htarget
      · next hlong =>
        rw [if_neg hlong]
        exact walk_mono h htarget

/-! ### What stands at a place -/

theorem node?_put (d : Disk) (p q : DiskPlace) (node : DiskNode) :
    (d.put p node).node? q
      = if q.components.isEmpty then some .directory
        else if q.key = p.key then some node else d.node? q := by
  unfold node?
  split
  · rfl
  · exact Dict.get?_insert d.nodes p.key q.key node

theorem node?_eq_of_key_eq {d : Disk} {p q : DiskPlace} (hkey : q.key = p.key)
    (hp : d.node? p ≠ some .directory) (hq : ¬ q.components.isEmpty = true) :
    d.node? q = d.node? p := by
  unfold node? at hp ⊢
  split at hp
  · exact absurd rfl hp
  · next hcomponents => rw [if_neg hq, if_neg hcomponents, hkey]

theorem directoriesIn_put_file {d : Disk} {p : DiskPlace} {content : Bytes}
    (h : d.node? p ≠ some .directory) : DirectoriesIn d (d.put p (.file content)) := by
  intro q hq
  rw [node?_put]
  split
  · rfl
  · next hcomponents =>
    rw [if_neg, hq]
    intro hkey
    rw [← node?_eq_of_key_eq hkey h hcomponents] at h
    exact h hq

/-- A file that is put makes no directory. -/
theorem directoriesIn_of_put_file (d : Disk) (p : DiskPlace) (content : Bytes) :
    DirectoriesIn (d.put p (.file content)) d := by
  intro q hq
  rw [node?_put] at hq
  split at hq
  · next hempty => rw [node?, if_pos hempty]
  · split at hq
    · cases hq
    · exact hq

theorem directoriesIn_put_directory (d : Disk) (p : DiskPlace) :
    DirectoriesIn d (d.put p .directory) := by
  intro q hq
  rw [node?_put, hq]
  split
  · rfl
  · split <;> rfl

theorem directoriesIn_erase {d : Disk} {p : DiskPlace} (h : d.node? p ≠ some .directory) :
    DirectoriesIn d { nodes := d.nodes.erase p.key } := by
  intro q hq
  by_cases hcomponents : q.components.isEmpty = true
  · rw [node?, if_pos hcomponents]
  · have hkey : q.key ≠ p.key := by
      intro hkey
      rw [← node?_eq_of_key_eq hkey h hcomponents] at h
      exact h hq
    rw [node?, if_neg hcomponents] at hq ⊢
    rw [Dict.get?_erase, if_neg hkey, hq]

/-! ### Operations on files -/

variable {d e : Disk} {path other : String} {content : Bytes}

/-- A file stands at the end of a walk that asks for no directory. -/
theorem lookup_eq_file_iff :
    d.lookup path = .ok (.file content)
      ↔ ∃ p, d.target path = .ok ⟨p, false⟩ ∧ d.node? p = some (.file content) := by
  rw [lookup, bind_eq_ok_iff]
  constructor
  · rintro ⟨⟨p, asDirectory⟩, htarget, h⟩
    split at h
    · cases h
    · cases h
    · next file hnode =>
      cases asDirectory with
      | true => cases h
      | false =>
        cases h
        exact ⟨p, htarget, hnode⟩
  · rintro ⟨p, htarget, hnode⟩
    refine ⟨⟨p, false⟩, htarget, ?_⟩
    rw [hnode]
    rfl

/-- What is written stands at a place where no directory stood. -/
theorem eq_put_of_write (h : d.write path content = .ok e) :
    ∃ p, d.target path = .ok ⟨p, false⟩ ∧ d.node? p ≠ some .directory ∧
      e = d.put p (.file content) := by
  rw [write, bind_eq_ok_iff] at h
  obtain ⟨⟨p, asDirectory⟩, htarget, h⟩ := h
  cases asDirectory <;> split at h <;> cases h
  all_goals
    next hnode => exact ⟨p, htarget, by simp [hnode], rfl⟩

/-- What is removed stood at the end of a walk that asks for no directory. -/
theorem eq_erase_of_remove (h : d.remove path = .ok e) :
    ∃ p, d.target path = .ok ⟨p, false⟩ ∧ d.node? p ≠ some .directory ∧
      e = { nodes := d.nodes.erase p.key } := by
  rw [remove, bind_eq_ok_iff] at h
  obtain ⟨⟨p, asDirectory⟩, htarget, h⟩ := h
  cases asDirectory <;> split at h <;> cases h
  next hnode => exact ⟨p, htarget, by simp [hnode], rfl⟩

/-- What is written is found. -/
theorem lookup_write (h : d.write path content = .ok e) :
    e.lookup path = .ok (.file content) := by
  obtain ⟨p, htarget, hnode, rfl⟩ := eq_put_of_write h
  have hcomponents : ¬ p.components.isEmpty = true := by
    intro hempty
    rw [node?, if_pos hempty] at hnode
    exact hnode rfl
  refine lookup_eq_file_iff.2 ⟨p, target_mono (directoriesIn_put_file hnode) htarget, ?_⟩
  rw [node?_put, if_neg hcomponents, if_pos rfl]

/-- A file that stands at the path on the first disk stands there on the second. -/
def KeepsFile (path : String) (d e : Disk) : Prop :=
  ∀ content, d.lookup path = .ok (.file content) → e.lookup path = .ok (.file content)

theorem KeepsFile.refl (path : String) (d : Disk) : KeepsFile path d d :=
  fun _ h => h

theorem KeepsFile.trans {f : Disk} (hde : KeepsFile path d e) (hef : KeepsFile path e f) :
    KeepsFile path d f :=
  fun content h => hef content (hde content h)

/-- A file stays where no directory is taken away and its own node is left alone. -/
theorem keepsFile_of_node? (h : DirectoriesIn d e)
    (hnode : ∀ p content, lastName p.key = lastName path → d.node? p = some (.file content) →
      e.node? p = some (.file content)) : KeepsFile path d e := by
  intro content hfile
  obtain ⟨p, htarget, hp⟩ := lookup_eq_file_iff.1 hfile
  exact lookup_eq_file_iff.2 ⟨p, target_mono h htarget, hnode p content (lastName_key htarget) hp⟩

theorem components_of_node?_file {p : DiskPlace} (h : d.node? p = some (.file content)) :
    ¬ p.components.isEmpty = true := by
  intro hempty
  rw [node?, if_pos hempty] at h
  cases h

/-- The path finds a file on one disk exactly when it finds it on the other. -/
def SameFile (path : String) (d e : Disk) : Prop :=
  ∀ content, d.lookup path = .ok (.file content) ↔ e.lookup path = .ok (.file content)

theorem SameFile.refl (path : String) (d : Disk) : SameFile path d d :=
  fun _ => Iff.rfl

theorem SameFile.trans {f : Disk} (hde : SameFile path d e) (hef : SameFile path e f) :
    SameFile path d f :=
  fun content => (hde content).trans (hef content)

theorem SameFile.keepsFile (h : SameFile path d e) : KeepsFile path d e :=
  fun content => (h content).1

/-- Under other names nothing changes when a file is written. -/
theorem sameFile_write (h : d.write other content = .ok e)
    (hname : lastName other ≠ lastName path) : SameFile path d e := by
  obtain ⟨q, htarget, hnode, rfl⟩ := eq_put_of_write h
  have hsame : ∀ p : DiskPlace, lastName p.key = lastName path →
      (d.put q (.file content)).node? p = d.node? p := by
    intro p hp
    have hkey : p.key ≠ q.key := by
      intro hkey
      rw [← hp, hkey, lastName_key htarget] at hname
      exact hname rfl
    rw [node?_put, if_neg hkey]
    split
    · next hempty => rw [node?, if_pos hempty]
    · rfl
  refine fun kept => ⟨?_, ?_⟩
  · exact keepsFile_of_node? (directoriesIn_put_file hnode)
      (fun p found hp hfile => (hsame p hp).trans hfile) kept
  · exact keepsFile_of_node? (directoriesIn_of_put_file d q content)
      (fun p found hp hfile => (hsame p hp).symm.trans hfile) kept

/-- A file stays when another name is written. -/
theorem keepsFile_write (h : d.write other content = .ok e)
    (hname : lastName other ≠ lastName path) : KeepsFile path d e :=
  (sameFile_write h hname).keepsFile

/-- A file stays when another name is removed. -/
theorem keepsFile_remove (h : d.remove other = .ok e)
    (hname : lastName other ≠ lastName path) : KeepsFile path d e := by
  obtain ⟨q, htarget, hnode, rfl⟩ := eq_erase_of_remove h
  refine keepsFile_of_node? (directoriesIn_erase hnode) fun p kept hp hfile => ?_
  have hkey : p.key ≠ q.key := by
    intro hkey
    rw [← hp, hkey, lastName_key htarget] at hname
    exact hname rfl
  have hcomponents := components_of_node?_file hfile
  rw [node?, if_neg hcomponents] at hfile ⊢
  rw [Dict.get?_erase, if_neg hkey, hfile]

/-! ### Directories that are made -/

/-- A file stays when a directory is made. -/
theorem keepsFile_makeDirectory (h : d.makeDirectory other = .ok e) : KeepsFile path d e := by
  rw [makeDirectory, bind_eq_ok_iff] at h
  obtain ⟨⟨q, asDirectory⟩, htarget, h⟩ := h
  split at h
  · cases h
  · next hnone =>
    cases h
    refine keepsFile_of_node? (directoriesIn_put_directory d q) fun p kept hp hfile => ?_
    have hcomponents := components_of_node?_file hfile
    have hkey : p.key ≠ q.key := by
      intro hkey
      have hnode := node?_eq_of_key_eq (d := d) hkey (by simp [hnone]) hcomponents
      rw [hfile, hnone] at hnode
      cases hnode
    rw [node?_put, if_neg hcomponents, if_neg hkey, hfile]

theorem keepsFile_ensureDirectory (h : d.ensureDirectory other = .ok e) : KeepsFile path d e := by
  unfold ensureDirectory at h
  split at h
  · next hmake =>
    cases h
    exact keepsFile_makeDirectory hmake
  · split at h
    · cases h
      exact .refl path d
    · cases h

theorem keepsFile_makeFrom {paths : List String} (h : d.makeFrom paths = .ok e) :
    KeepsFile path d e := by
  induction paths generalizing e with
  | nil =>
    cases h
    exact .refl path d
  | cons first around ih =>
    rw [makeFrom] at h
    split at h
    · split at h
      · next hmake => exact (ih hmake).trans (keepsFile_ensureDirectory h)
      · cases h
    · exact keepsFile_ensureDirectory h

/-- A file stays when a directory and those around it are made. -/
theorem keepsFile_makeDirectories (h : d.makeDirectories other = .ok e) : KeepsFile path d e :=
  keepsFile_makeFrom h

/-! ### Contents -/

theorem readText_of_lookup {text : String} (h : d.lookup path = .ok (.file (bytesOf text))) :
    d.readText path = .ok text := by
  simp [readText, read, h, stringOf?_bytesOf, bind, Except.bind, pure, Except.pure]

end Disk

end MotifQuery
