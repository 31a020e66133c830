import MotifQuery.Proofs.Disk.GraphFile

/-!
# `MotifQuery.Proofs.Disk.Directory`: a directory as a map from names to nodes

A path that leads to a directory (`Opens`) leads, with a plain name behind it, to the place of
that name in the directory (`Opens.target_join`). So a directory is read and changed by names:
`Opens.lookup_join`, `Opens.of_write` and `Opens.of_remove` say what a name stands
for, before and after an operation under a name, and `Opens.mem_names_iff` says which names are
listed.
-/

set_option autoImplicit false

namespace MotifQuery

open Text

/-- Texts behind one opening are ordered as they are. -/
theorem append_lt_append_iff {front a b : String} : front ++ a < front ++ b ↔ a < b := by
  have happend : ∀ {a b : String}, a < b → front ++ a < front ++ b := by
    intro a b hlt
    show (front ++ a).toList < (front ++ b).toList
    rw [String.toList_append, String.toList_append]
    exact List.append_left_lt hlt
  refine ⟨fun h => ?_, happend⟩
  by_contra hle
  have hne : b ≠ a := by
    rintro rfl
    exact String.lt_irrefl _ h
  have hlt : b < a := by
    by_contra hba
    exact hne (String.le_antisymm (String.not_lt.1 hle) (String.not_lt.1 hba))
  exact String.lt_asymm h (happend hlt)

/-! ### Places -/

namespace DiskPlace

/-- The components of a place are names: none is empty and none holds a stroke. -/
def Proper (p : DiskPlace) : Prop :=
  ∀ name ∈ p.components, name ≠ "" ∧ '/' ∉ name.toList

variable {p : DiskPlace} {name other : String}

theorem Proper.child (hp : p.Proper) (hname : name ≠ "") (hstroke : '/' ∉ name.toList) :
    (p.child name).Proper := by
  intro component hcomponent
  rcases List.mem_append.1 hcomponent with h | h
  · exact hp component h
  · obtain rfl := List.mem_singleton.1 h
    exact ⟨hname, hstroke⟩

theorem Proper.parent (hp : p.Proper) : p.parent.Proper :=
  fun component hcomponent => hp component (List.dropLast_subset _ hcomponent)

/-- The components of a place, joined, begin with no stroke. -/
theorem Proper.exists_intercalate (hp : p.Proper) (hnil : p.components ≠ []) :
    ∃ c cs, (String.intercalate "/" p.components).toList = c :: cs ∧ c ≠ '/' := by
  obtain ⟨absolute, components⟩ := p
  obtain ⟨first, rest, rfl⟩ := List.exists_cons_of_ne_nil hnil
  obtain ⟨hempty, hstroke⟩ := hp first List.mem_cons_self
  have hchars : first.toList ≠ [] := fun h => hempty (String.toList_eq_nil_iff.1 h)
  obtain ⟨c, cs, hfirst⟩ := List.exists_cons_of_ne_nil hchars
  have hc : c ≠ '/' := by
    rintro rfl
    exact hstroke (hfirst ▸ List.mem_cons_self)
  cases rest with
  | nil => exact ⟨c, cs, by simpa using hfirst, hc⟩
  | cons next rest =>
    refine ⟨c, cs ++ ("/" ++ String.intercalate "/" (next :: rest)).toList, ?_, hc⟩
    rw [String.intercalate_cons_cons, String.append_assoc, String.toList_append, hfirst]
    rfl

/-- The key of a name in a directory is the key of the directory, a stroke and the name. -/
theorem Proper.key_child (hp : p.Proper) (name : String) :
    (p.child name).key = (if p.key = "" ∨ p.key = "/" then p.key else p.key ++ "/") ++ name := by
  by_cases hnil : p.components = []
  · obtain ⟨absolute, components⟩ := p
    obtain rfl : components = [] := hnil
    cases absolute <;> simp [key, DiskPlace.child]
  · have hne : ¬ (p.key = "" ∨ p.key = "/") := by
      obtain ⟨c, cs, htext, hc⟩ := hp.exists_intercalate hnil
      rw [key, ← String.toList_inj, ← String.toList_inj, String.toList_append, htext]
      cases p.absolute <;> simp [hc]
    rw [if_neg hne, key, key, DiskPlace.child,
      String.intercalate_append_of_ne_nil hnil (List.cons_ne_nil _ _), String.intercalate_singleton]
    simp only [String.append_assoc]

theorem Proper.key_child_inj (hp : p.Proper) (h : (p.child name).key = (p.child other).key) :
    name = other := by
  rw [hp.key_child, hp.key_child] at h
  exact (String.append_right_inj _).1 h

end DiskPlace

namespace Disk

variable {d e : Disk} {dir path name other : String} {p here : DiskPlace} {content : Bytes}

/-! ### Walks into a directory -/

/-- The name of an entry of a directory: one component, and none that leads elsewhere. -/
structure PlainName (name : String) : Prop where
  nonempty : name ≠ ""
  dot : name ≠ "."
  dots : name ≠ ".."
  stroke : '/' ∉ name.toList
  short : (bytesOf name).length ≤ 255

/-- The disk takes the path: it holds no null character and is not too long. -/
def Usable (path : String) : Prop :=
  '\x00' ∉ path.toList ∧ (bytesOf path).length ≤ 4095

/-- A short ASCII name with the ending of a format is plain. -/
theorem plainName_append_suffix {start : String}
    (hascii : ∀ c ∈ start.toList, c.toNat < 0x80 ∧ c ≠ '/') (hshort : start.toList.length ≤ 200)
    (f : GraphFormat) : PlainName (start ++ f.suffix) := by
  have hsuffix : (∀ c ∈ f.suffix.toList, c.toNat < 0x80 ∧ c ≠ '/') ∧
      4 ≤ f.suffix.toList.length ∧ f.suffix.toList.length ≤ 11 := by
    cases f <;> simp [GraphFormat.suffix]
  have hchars : ∀ c ∈ (start ++ f.suffix).toList, c.toNat < 0x80 ∧ c ≠ '/' := by
    intro c hc
    rw [String.toList_append, List.mem_append] at hc
    exact hc.elim (hascii c) (hsuffix.1 c)
  have hlength : (start ++ f.suffix).toList.length
      = start.toList.length + f.suffix.toList.length := by
    rw [String.toList_append, List.length_append]
  have hne : ∀ short : String, short.toList.length < 4 → start ++ f.suffix ≠ short := by
    rintro short hless rfl
    omega
  refine ⟨hne "" (by decide), hne "." (by decide), hne ".." (by decide),
    fun hmem => (hchars '/' hmem).2 rfl, ?_⟩
  rw [bytesOf, length_encode_of_ascii fun c hc => (hchars c hc).1]
  omega

theorem enter_proper {there : DiskPlace} (hproper : here.Proper) (hstroke : '/' ∉ name.toList)
    (h : d.enter here name = .ok there) : there.Proper := by
  unfold enter at h
  split at h
  · cases h
    exact hproper
  next hdot =>
  split at h
  · cases h
    exact hproper.parent
  split at h
  · cases h
  split at h
  · cases h
    exact hproper.child (fun hempty => hdot (.inl hempty)) hstroke
  · cases h
  · cases h

theorem walk_proper {names : List String} {t : Target} (hproper : here.Proper)
    (hstroke : ∀ name ∈ names, '/' ∉ name.toList) (h : d.walk here names = .ok t) :
    t.place.Proper := by
  fun_induction walk d here names with
  | case1 => cases h; exact hproper
  | case2 => cases h; exact hproper
  | case3 => cases h; exact hproper.parent
  | case4 | case8 | case11 => cases h
  | case5 here name hdot =>
    cases h
    exact hproper.child (fun hempty => hdot (.inl hempty)) (hstroke name List.mem_cons_self)
  | case6 => cases h; exact hproper
  | case7 => cases h; exact hproper.parent
  | case9 here name hdot =>
    cases h
    exact hproper.child (fun hempty => hdot (.inl hempty)) (hstroke name List.mem_cons_self)
  | case10 here name rest hnil hlast there henter ih =>
    exact ih (enter_proper hproper (hstroke name List.mem_cons_self) henter)
      (fun other hother => hstroke other (List.mem_cons_of_mem _ hother)) h

theorem walk_plain (d : Disk) (here : DiskPlace) (hname : PlainName name) :
    d.walk here [name] = .ok ⟨here.child name, false⟩ := by
  rw [walk, if_neg (not_or.2 ⟨hname.nonempty, hname.dot⟩), if_neg hname.dots,
    if_neg (Nat.not_lt.2 hname.short)]

/-- A name that is entered in front of others leads where the walk along it leads. -/
theorem walk_cons_of_ne {rest : List String} (hnil : rest ≠ []) (hlast : rest.getLast? ≠ some "") :
    d.walk here (name :: rest) = match d.enter here name with
      | .ok there => d.walk there rest
      | .error fault => .error fault :=
  walk_cons hnil fun hstroke => hlast (hstroke ▸ rfl)

/-- An empty name in front of others leads nowhere else. -/
theorem walk_empty (d : Disk) (here : DiskPlace) {rest : List String} (hnil : rest ≠ [])
    (hlast : rest.getLast? ≠ some "") : d.walk here ("" :: rest) = d.walk here rest := by
  rw [walk_cons_of_ne hnil hlast]
  rfl

/-- A name that leads to a directory is entered where it stands in front of others. -/
theorem enter_of_walk {asDirectory : Bool} (h : d.walk here [name] = .ok ⟨p, asDirectory⟩)
    (hp : d.node? p = some .directory) : d.enter here name = .ok p := by
  rw [walk] at h
  unfold enter
  split at h
  · next hdot =>
    cases h
    rw [if_pos hdot]
  next hdot =>
  rw [if_neg hdot]
  split at h
  · next hdots =>
    cases h
    rw [if_pos hdots]
  next hdots =>
  rw [if_neg hdots]
  split at h
  · cases h
  next hlong =>
  cases h
  rw [if_neg hlong, hp]

/-- A stroke behind a name asks for a directory and changes nothing else. -/
theorem walk_stroke {t : Target} (h : d.walk here [name, ""] = .ok t) :
    ∃ asDirectory, d.walk here [name] = .ok ⟨t.place, asDirectory⟩ := by
  rw [walk.eq_3] at h
  rw [walk.eq_2]
  split at h
  · next hdot =>
    cases h
    exact ⟨true, if_pos hdot⟩
  next hdot =>
  rw [if_neg hdot]
  split at h
  · next hdots =>
    cases h
    exact ⟨true, if_pos hdots⟩
  next hdots =>
  rw [if_neg hdots]
  split at h
  · cases h
  next hlong =>
  cases h
  exact ⟨false, if_neg hlong⟩

/-- A walk to a directory goes on to a plain name in it. -/
theorem walk_concat {names : List String} {asDirectory : Bool} (hname : PlainName name)
    (h : d.walk here names = .ok ⟨p, asDirectory⟩) (hp : d.node? p = some .directory) :
    d.walk here (names ++ [name]) = .ok ⟨p.child name, false⟩ := by
  have hlast : ∀ front : List String, (front ++ [name]).getLast? ≠ some "" := by
    intro front
    rw [List.getLast?_concat, Ne, Option.some.injEq]
    exact hname.nonempty
  induction names generalizing here with
  | nil =>
    cases h
    exact walk_plain d p hname
  | cons first rest ih =>
    -- the last of the names may be empty, after a stroke at the end, and is then passed over
    by_cases hnil : rest = []
    · subst hnil
      rw [List.cons_append, walk_cons_of_ne (by simp) (hlast []), enter_of_walk h hp]
      exact walk_plain d p hname
    by_cases hstroke : rest = [""]
    · subst hstroke
      obtain ⟨_, hfirst⟩ := walk_stroke h
      rw [List.cons_append, walk_cons_of_ne (by simp) (hlast [""]), enter_of_walk hfirst hp]
      exact (walk_empty d p (List.cons_ne_nil name []) (hlast [])).trans (walk_plain d p hname)
    · rw [walk_cons hnil hstroke] at h
      rw [List.cons_append, walk_cons_of_ne (by simp) (hlast rest)]
      cases henter : d.enter here first with
      | ok there =>
        rw [henter] at h
        exact ih h
      | error fault =>
        rw [henter] at h
        cases h

/-- A stroke more in front of a name leads nowhere else. -/
theorem walk_skip (d : Disk) (here : DiskPlace) (hname : name ≠ "") (names : List String) :
    d.walk here (names ++ ["", name]) = d.walk here (names ++ [name]) := by
  have hlast : ∀ front : List String, (front ++ [name]).getLast? ≠ some "" := by
    intro front
    rw [List.getLast?_concat, Ne, Option.some.injEq]
    exact hname
  induction names generalizing here with
  | nil => exact walk_empty d here (List.cons_ne_nil name []) (hlast [])
  | cons first rest ih =>
    rw [List.cons_append, List.cons_append, walk_cons_of_ne (by simp) (hlast rest),
      walk_cons_of_ne (by simp) (by simpa using hlast rest)]
    split
    · exact ih _
    · rfl

/-! ### Directories -/

theorem components_child (p : DiskPlace) (name : String) :
    ¬ (p.child name).components.isEmpty = true := by
  simp [DiskPlace.child]

theorem node?_child (d : Disk) (p : DiskPlace) (name : String) :
    d.node? (p.child name) = d.nodes.get? (p.child name).key := by
  rw [node?, if_neg (components_child p name)]

/-- The path leads to the directory. -/
structure Opens (d : Disk) (dir : String) (p : DiskPlace) : Prop where
  target : ∃ asDirectory, d.target dir = .ok ⟨p, asDirectory⟩
  directory : d.node? p = some .directory

theorem walk_of_target {t : Target} (h : d.target path = .ok t) :
    path ≠ "" ∧ Usable path ∧ d.walk ⟨path.toList.head? == some '/', []⟩
      ((pieces '/' path.toList).map String.ofList) = .ok t := by
  unfold Disk.target at h
  dsimp only at h
  split at h
  · cases h
  next hnull =>
  split at h
  · cases h
  next hempty =>
  split at h
  · cases h
  next hlong =>
  refine ⟨?_, ⟨by simpa using hnull, Nat.not_lt.1 hlong⟩, h⟩
  rintro rfl
  exact hempty rfl

theorem target_eq_walk (hempty : path ≠ "") (husable : Usable path) :
    d.target path = d.walk ⟨path.toList.head? == some '/', []⟩
      ((pieces '/' path.toList).map String.ofList) := by
  have hchars : ¬ path.toList.isEmpty = true := by
    rw [List.isEmpty_iff]
    exact fun h => hempty (String.toList_eq_nil_iff.1 h)
  unfold Disk.target
  dsimp only
  rw [if_neg (by simpa using husable.1), if_neg hchars, if_neg (Nat.not_lt.2 husable.2)]

/-- The path of a name without a stroke is the name behind what the directory alone gives. -/
theorem join_eq_append (dir : String) (hstroke : '/' ∉ name.toList) :
    join dir name = (if dir = "" ∨ endsWith dir "/" then dir else dir ++ "/") ++ name := by
  have hstart : startsWith name "/" = false := by
    rw [← Bool.not_eq_true, startsWith, List.isPrefixOf_iff_prefix]
    rintro ⟨rest, hrest⟩
    exact hstroke (hrest ▸ List.mem_cons_self)
  rw [join, hstart, if_neg Bool.false_ne_true]
  split <;> rfl

theorem join_eq (hempty : dir ≠ "") (hname : PlainName name) :
    join dir name = if endsWith dir "/" then dir ++ name else dir ++ "/" ++ name := by
  rw [join_eq_append dir hname.stroke]
  simp only [hempty, false_or]
  split <;> rfl

theorem exists_append_eq_join (hempty : dir ≠ "") (hname : PlainName name) :
    ∃ behind, join dir name = dir ++ behind := by
  rw [join_eq hempty hname]
  split
  · exact ⟨name, rfl⟩
  · exact ⟨"/" ++ name, String.append_assoc⟩

/-- The path of a plain name in a directory is walked along the directory to the name. -/
theorem walk_join (d : Disk) (here : DiskPlace) (hempty : dir ≠ "") (hname : PlainName name) :
    d.walk here ((pieces '/' (join dir name).toList).map String.ofList)
      = d.walk here ((pieces '/' dir.toList).map String.ofList ++ [name]) := by
  have hpieces : (pieces '/' name.toList).map String.ofList = [name] := by
    rw [pieces_of_not_mem hname.stroke, List.map_singleton, String.ofList_toList]
  rw [join_eq hempty hname]
  split
  · next hends =>
    -- the stroke at the end of the directory stands in front of the name
    obtain ⟨front, hfront⟩ := List.isSuffixOf_iff_suffix.1 hends
    have hdir : pieces '/' dir.toList = pieces '/' front ++ [[]] :=
      hfront ▸ pieces_append_sep '/' front []
    have hjoin : (dir ++ name).toList = front ++ '/' :: name.toList := by
      rw [String.toList_append, ← hfront, List.append_assoc]
      rfl
    rw [hjoin, pieces_append_sep, List.map_append, hpieces, hdir, List.map_append,
      List.append_assoc]
    exact (walk_skip d here hname.nonempty _).symm
  · have hjoin : (dir ++ "/" ++ name).toList = dir.toList ++ '/' :: name.toList := by simp
    rw [hjoin, pieces_append_sep, List.map_append, hpieces]

theorem target_proper {t : Target} (h : d.target path = .ok t) : t.place.Proper := by
  obtain ⟨-, -, hwalk⟩ := walk_of_target h
  refine walk_proper (fun _ hname => absurd hname List.not_mem_nil) (fun name hname => ?_) hwalk
  obtain ⟨piece, hpiece, rfl⟩ := List.mem_map.1 hname
  rw [String.toList_ofList]
  exact not_mem_of_mem_pieces hpiece

/-- The first opening of a path is the path. -/
theorem exists_openings_eq (hempty : dir ≠ "") : ∃ around, openings dir = dir :: around := by
  obtain ⟨n, hn⟩ : ∃ n, ((pieces '/' dir.toList).map String.ofList).length = n + 1 :=
    Nat.exists_eq_succ_of_ne_zero (by simpa using pieces_ne_nil '/' dir.toList)
  have hwhole : String.intercalate "/" ((pieces '/' dir.toList).map String.ofList) = dir :=
    (intercalate_pieces '/' dir.toList).trans String.ofList_toList
  unfold openings
  dsimp only
  rw [hn, List.range_succ, List.map_append, List.map_singleton,
    List.take_of_length_le (Nat.le_of_eq hn), hwhole, List.filter_append,
    List.filter_cons_of_pos (by simpa using hempty), List.filter_nil, List.reverse_append,
    List.reverse_singleton]
  exact ⟨_, rfl⟩

namespace Opens

theorem proper (h : d.Opens dir p) : p.Proper := by
  obtain ⟨_, htarget⟩ := h.target
  exact target_proper htarget

/-- A plain name behind the path of a directory leads to the place of the name in it. -/
theorem target_join (h : d.Opens dir p) (hname : PlainName name)
    (husable : Usable (join dir name)) :
    d.target (join dir name) = .ok ⟨p.child name, false⟩ := by
  obtain ⟨asDirectory, htarget⟩ := h.target
  obtain ⟨hempty, -, hwalk⟩ := walk_of_target htarget
  have hhead : (join dir name).toList.head? = dir.toList.head? := by
    obtain ⟨behind, hjoin⟩ := exists_append_eq_join hempty hname
    have hchars : dir.toList ≠ [] := fun h => hempty (String.toList_eq_nil_iff.1 h)
    rw [hjoin, String.toList_append, List.head?_append_of_ne_nil _ hchars]
  have hjoin : join dir name ≠ "" := by
    intro heq
    rw [heq] at hhead
    exact hempty (String.toList_eq_nil_iff.1 (List.head?_eq_none_iff.1 hhead.symm))
  rw [target_eq_walk hjoin husable, hhead, walk_join d _ hempty hname]
  exact walk_concat hname hwalk h.directory

/-! ### Entries -/

/-- The path of a plain name finds what the name stands for. -/
theorem lookup_join (h : d.Opens dir p) (hname : PlainName name)
    (husable : Usable (join dir name)) {node : DiskNode} :
    d.lookup (join dir name) = .ok node ↔ d.node? (p.child name) = some node := by
  rw [lookup, h.target_join hname husable]
  dsimp only [bind, Except.bind]
  cases d.node? (p.child name) with
  | none => exact iff_of_false (by rintro ⟨⟩) (by rintro ⟨⟩)
  | some found =>
    have hfound : (Except.ok found : Except DiskFault DiskNode) = .ok node
        ↔ some found = some node := by simp
    cases found <;> exact hfound

/-- The directory stays where no directory is taken away. -/
theorem mono (h : d.Opens dir p) (hde : DirectoriesIn d e) : e.Opens dir p := by
  obtain ⟨asDirectory, htarget⟩ := h.target
  exact ⟨⟨asDirectory, target_mono hde htarget⟩, hde p h.directory⟩

/-- Writing a name in a directory changes what the name stands for. -/
theorem of_write (h : d.Opens dir p) (hname : PlainName name)
    (hwrite : d.write (join dir name) content = .ok e) :
    e.Opens dir p ∧ ∀ other, e.node? (p.child other)
      = if other = name then some (.file content) else d.node? (p.child other) := by
  obtain ⟨q, htarget, hnode, rfl⟩ := eq_put_of_write hwrite
  obtain rfl : q = p.child name := by
    have hjoin := h.target_join hname (walk_of_target htarget).2.1
    exact congrArg Target.place (Except.ok.inj (htarget.symm.trans hjoin))
  refine ⟨h.mono (directoriesIn_put_file hnode), fun other => ?_⟩
  rw [node?_put, if_neg (components_child p other)]
  by_cases hother : other = name
  · rw [hother, if_pos rfl, if_pos rfl]
  · rw [if_neg fun hkey => hother (h.proper.key_child_inj hkey), if_neg hother]

/-- Removing a name from a directory takes it away. -/
theorem of_remove (h : d.Opens dir p) (hname : PlainName name)
    (hremove : d.remove (join dir name) = .ok e) :
    e.Opens dir p ∧ ∀ other, e.node? (p.child other)
      = if other = name then none else d.node? (p.child other) := by
  obtain ⟨q, htarget, hnode, rfl⟩ := eq_erase_of_remove hremove
  obtain rfl : q = p.child name := by
    have hjoin := h.target_join hname (walk_of_target htarget).2.1
    exact congrArg Target.place (Except.ok.inj (htarget.symm.trans hjoin))
  refine ⟨h.mono (directoriesIn_erase hnode), fun other => ?_⟩
  rw [node?_child, node?_child, Dict.get?_erase]
  by_cases hother : other = name
  · rw [hother, if_pos rfl, if_pos rfl]
  · rw [if_neg fun hkey => hother (h.proper.key_child_inj hkey), if_neg hother]

/-- A name that stands for no directory can be written. -/
theorem exists_write (h : d.Opens dir p) (hname : PlainName name)
    (husable : Usable (join dir name)) (hnode : d.node? (p.child name) ≠ some .directory)
    (content : Bytes) : ∃ e, d.write (join dir name) content = .ok e := by
  refine ⟨d.put (p.child name) (.file content), ?_⟩
  rw [write, h.target_join hname husable]
  dsimp only [bind, Except.bind]
  split
  · next hdirectory => exact absurd hdirectory hnode
  · rfl
  · rfl

/-! ### Making what is there -/

/-- Making a directory that is there changes nothing. -/
theorem makeDirectories_eq (h : d.Opens dir p) : d.makeDirectories dir = .ok d := by
  obtain ⟨asDirectory, htarget⟩ := h.target
  have hmake : d.makeDirectory dir = .error .alreadyExists := by
    rw [makeDirectory, htarget]
    dsimp only [bind, Except.bind]
    rw [h.directory]
    rfl
  have hlookup : d.lookup dir = .ok .directory := by
    rw [lookup, htarget]
    dsimp only [bind, Except.bind]
    rw [h.directory]
    rfl
  have hensure : d.ensureDirectory dir = .ok d := by
    unfold ensureDirectory isDirectory
    rw [hmake, hlookup]
    rfl
  obtain ⟨around, hopenings⟩ := exists_openings_eq (walk_of_target htarget).1
  rw [makeDirectories, hopenings, makeFrom, hmake]
  exact hensure

/-! ### Listings -/

theorem nameIn?_eq_some_iff (hp : p.Proper) {key : String} :
    nameIn? p.key key = some name
      ↔ key = (p.child name).key ∧ name ≠ "" ∧ '/' ∉ name.toList := by
  rw [hp.key_child, nameIn?]
  generalize (if p.key = "" ∨ p.key = "/" then p.key else p.key ++ "/") = start
  -- a key in the directory goes on after the key of the directory
  cases hrest : after? start key with
  | none =>
    refine ⟨nofun, ?_⟩
    rintro ⟨rfl, -⟩
    rw [after?_eq_some_iff.2 rfl] at hrest
    cases hrest
  | some rest =>
    obtain rfl := after?_eq_some_iff.1 hrest
    rw [String.append_right_inj]
    have hlisted : (rest.contains '/' = true ∨ rest = "") ↔ ¬ (rest ≠ "" ∧ '/' ∉ rest.toList) := by
      rw [not_and_or, not_not, not_not, String.contains_char_eq, decide_eq_true_iff, or_comm]
    show (if rest.contains '/' = true ∨ rest = "" then none else some rest) = some name ↔ _
    by_cases hplain : rest ≠ "" ∧ '/' ∉ rest.toList
    · rw [if_neg fun h => hlisted.1 h hplain, Option.some.injEq]
      exact ⟨fun h => ⟨h, h ▸ hplain⟩, fun h => h.1⟩
    · rw [if_pos (hlisted.2 hplain)]
      refine ⟨nofun, ?_⟩
      rintro ⟨rfl, h⟩
      exact absurd h hplain

theorem names_eq (h : d.Opens dir p) :
    d.names dir = .ok (d.nodes.keys.filterMap (nameIn? p.key)) := by
  obtain ⟨asDirectory, htarget⟩ := h.target
  rw [names, htarget]
  dsimp only [bind, Except.bind]
  rw [h.directory]
  rfl

/-- A directory lists the names that stand for something. -/
theorem mem_names_iff (h : d.Opens dir p) {names : List String} (hnames : d.names dir = .ok names) :
    name ∈ names ↔ (name ≠ "" ∧ '/' ∉ name.toList) ∧ (d.node? (p.child name)).isSome := by
  obtain rfl := Except.ok.inj (h.names_eq.symm.trans hnames)
  rw [List.mem_filterMap, node?_child, ← Dict.mem_keys_iff]
  constructor
  · rintro ⟨key, hkey, hname⟩
    obtain ⟨rfl, hplain⟩ := (nameIn?_eq_some_iff h.proper).1 hname
    exact ⟨hplain, hkey⟩
  · rintro ⟨hplain, hkey⟩
    exact ⟨_, hkey, (nameIn?_eq_some_iff h.proper).2 ⟨rfl, hplain⟩⟩

/-- In a directory that lists no name, no name stands for anything. -/
theorem node?_eq_none (h : d.Opens dir p) (hnames : d.names dir = .ok [])
    (hname : name ≠ "" ∧ '/' ∉ name.toList) : d.node? (p.child name) = none := by
  rw [← Option.not_isSome_iff_eq_none]
  exact fun hsome => List.not_mem_nil ((h.mem_names_iff hnames).2 ⟨hname, hsome⟩)

/-- The names are listed in ascending order. -/
theorem pairwise_names (h : d.Opens dir p) {names : List String}
    (hnames : d.names dir = .ok names) : names.Pairwise (· < ·) := by
  obtain rfl := Except.ok.inj (h.names_eq.symm.trans hnames)
  have hkeys : d.nodes.keys.Pairwise (· < ·) := List.pairwise_map.2 d.nodes.ascending
  refine List.pairwise_filterMap.2 (hkeys.imp fun hlt name hname name' hname' => ?_)
  -- the keys of names are the names behind one opening
  rw [((nameIn?_eq_some_iff h.proper).1 hname).1, ((nameIn?_eq_some_iff h.proper).1 hname').1,
    h.proper.key_child, h.proper.key_child, append_lt_append_iff] at hlt
  exact hlt

/-- No name is listed twice. -/
theorem nodup_names (h : d.Opens dir p) {names : List String} (hnames : d.names dir = .ok names) :
    names.Nodup := by
  obtain rfl := Except.ok.inj (h.names_eq.symm.trans hnames)
  refine d.nodes.nodup_keys.filterMap fun key key' name hname hname' => ?_
  rw [((nameIn?_eq_some_iff h.proper).1 hname).1, ((nameIn?_eq_some_iff h.proper).1 hname').1]

end Opens

/-- What is found has a path that the disk takes. -/
theorem usable_of_lookup {node : DiskNode} (h : d.lookup path = .ok node) : Usable path := by
  obtain ⟨t, htarget, -⟩ := bind_eq_ok_iff.1 h
  exact (walk_of_target htarget).2.1

/-- A file can be removed. -/
theorem exists_remove (hfile : d.lookup path = .ok (.file content)) :
    ∃ e, d.remove path = .ok e := by
  obtain ⟨q, htarget, hnode⟩ := lookup_eq_file_iff.1 hfile
  refine ⟨{ nodes := d.nodes.erase q.key }, ?_⟩
  rw [remove, htarget]
  dsimp only [bind, Except.bind]
  rw [hnode]
  rfl

/-- What can be listed is a directory. -/
theorem exists_opens_of_names {names : List String} (h : d.names dir = .ok names) :
    ∃ p, d.Opens dir p := by
  obtain ⟨⟨p, asDirectory⟩, htarget, h⟩ := bind_eq_ok_iff.1 h
  split at h
  · cases h
  · cases h
  · next hdirectory => exact ⟨p, ⟨asDirectory, htarget⟩, hdirectory⟩

end Disk

end MotifQuery
