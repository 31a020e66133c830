import Mathlib.Data.List.Chain
import Mathlib.Data.List.Infix
import MotifQuery.Text.Split

/-!
# `MotifQuery.Proofs.Text.Split`: cutting what was joined

Cutting at a separator undoes joining with it, as long as the parts are free of the
separator: `pieces_append_sep` and `pieces_append` for all pieces, `splitOnce?_char` and
`splitOnce?_pair` for the first occurrence of a separator of one and of two characters.
Joining undoes cutting (`intercalate_pieces`, `splitOnce?_eq_some`). `PairFree` says that two
characters nowhere stand side by side; such a separator is found unless the text is free of
it. A run of characters of one class ends where another class begins (`takeWhile_run`,
`dropWhile_run`). `after?_eq_some_iff` says what stands behind an opening.
-/

set_option autoImplicit false

namespace MotifQuery.Text

/-! ### Runs -/

section Run
variable {p : Char → Bool} {cs rest : List Char}

theorem takeWhile_run (hcs : ∀ c ∈ cs, p c = true) (hrest : ∀ c ∈ rest.head?, p c = false) :
    (cs ++ rest).takeWhile p = cs := by
  rw [List.takeWhile_append_of_pos hcs]
  cases rest with
  | nil => exact List.append_nil cs
  | cons d rest => rw [List.takeWhile_cons, hrest d rfl, if_neg Bool.false_ne_true, List.append_nil]

theorem dropWhile_run (hcs : ∀ c ∈ cs, p c = true) (hrest : ∀ c ∈ rest.head?, p c = false) :
    (cs ++ rest).dropWhile p = rest := by
  rw [List.dropWhile_append_of_pos hcs]
  cases rest with
  | nil => rfl
  | cons d rest => rw [List.dropWhile_cons, hrest d rfl, if_neg Bool.false_ne_true]

/-- A run goes on at most in a longer text. -/
theorem mem_takeWhile_of_isPrefix {c : Char} (h : cs <+: rest) (hc : c ∈ cs.takeWhile p) :
    c ∈ rest.takeWhile p := by
  obtain ⟨ds, rfl⟩ := h
  rw [List.takeWhile_append]
  split
  · exact List.mem_append_left _ ((List.takeWhile_sublist p).mem hc)
  · exact hc

/-- A run that ends in a text ends there in a longer one. -/
theorem takeWhile_append_of_mem {c : Char} (hc : c ∈ cs) (hp : p c = false) (ds : List Char) :
    (cs ++ ds).takeWhile p = cs.takeWhile p := by
  rw [List.takeWhile_append, if_neg]
  intro hlength
  have hall := (List.takeWhile_sublist p).eq_of_length hlength
  rw [← hall] at hc
  exact Bool.false_ne_true (hp.symm.trans (List.all_eq_true.1 (List.all_takeWhile) c hc))

end Run

/-! ### Texts in two parts -/

/-- The characters of a text that is put together from two. -/
theorem toList_append_of {s t : String} {cs ds : List Char} (hs : s.toList = cs)
    (ht : t.toList = ds) : (s ++ t).toList = cs ++ ds := by
  rw [String.toList_append, hs, ht]

/-! ### All pieces -/

theorem pieces_of_not_mem {sep : Char} {cs : List Char} (h : sep ∉ cs) :
    pieces sep cs = [cs] := by
  induction cs with
  | nil => rfl
  | cons c rest ih =>
    obtain ⟨hc, hrest⟩ := List.ne_and_not_mem_of_not_mem_cons h
    rw [pieces, if_neg (Ne.symm hc), ih hrest]

theorem pieces_ne_nil (sep : Char) (cs : List Char) : pieces sep cs ≠ [] := by
  cases cs with
  | nil => simp [pieces]
  | cons c cs =>
    rw [pieces]
    split
    · simp
    · split <;> simp

/-- A separator parts the pieces before it from those behind it. -/
theorem pieces_append_sep (sep : Char) (cs ds : List Char) :
    pieces sep (cs ++ sep :: ds) = pieces sep cs ++ pieces sep ds := by
  induction cs with
  | nil => simp [pieces]
  | cons c cs ih =>
    rw [List.cons_append, pieces, pieces, ih]
    split
    · rfl
    · cases hcs : pieces sep cs with
      | nil => exact absurd hcs (pieces_ne_nil sep cs)
      | cons first rest => rfl

/-- There is one piece more than separators. -/
theorem length_pieces (sep : Char) (cs : List Char) :
    (pieces sep cs).length = cs.count sep + 1 := by
  induction cs with
  | nil => rfl
  | cons c cs ih =>
    rw [pieces, List.count_cons]
    split
    · next hc => rw [List.length_cons, ih, hc, beq_self_eq_true, if_pos rfl]
    · next hc =>
      rw [beq_eq_false_iff_ne.2 hc, if_neg Bool.false_ne_true, Nat.add_zero, ← ih]
      cases hcs : pieces sep cs with
      | nil => exact absurd hcs (pieces_ne_nil sep cs)
      | cons first rest => rfl

/-- The piece before a separator is cut off. -/
theorem pieces_append {sep : Char} {cs : List Char} (h : sep ∉ cs) (rest : List Char) :
    pieces sep (cs ++ sep :: rest) = cs :: pieces sep rest := by
  rw [pieces_append_sep, pieces_of_not_mem h]
  rfl

theorem takeWhile_ne_append {sep : Char} {cs : List Char} (h : sep ∉ cs) (ds : List Char) :
    (cs ++ ds).takeWhile (· != sep) = cs ++ ds.takeWhile (· != sep) := by
  refine List.takeWhile_append_of_pos fun c hc => bne_iff_ne.2 ?_
  rintro rfl
  exact h hc

/-- The first piece ends before the first separator. -/
theorem exists_pieces_eq (sep : Char) (cs : List Char) :
    ∃ rest, pieces sep cs = cs.takeWhile (· != sep) :: rest := by
  induction cs with
  | nil => exact ⟨[], rfl⟩
  | cons c cs ih =>
    obtain ⟨rest, hrest⟩ := ih
    rw [pieces, hrest, List.takeWhile_cons]
    by_cases hc : c = sep
    · exact ⟨_, by rw [if_pos hc, hc, bne_self_eq_false, if_neg Bool.false_ne_true]⟩
    · exact ⟨rest, by rw [if_neg hc, if_pos (bne_iff_ne.2 hc)]⟩

/-- No piece holds the separator. -/
theorem not_mem_of_mem_pieces {sep : Char} {cs piece : List Char} (h : piece ∈ pieces sep cs) :
    sep ∉ piece := by
  induction cs generalizing piece with
  | nil =>
    obtain rfl := List.mem_singleton.1 h
    simp
  | cons c cs ih =>
    rw [pieces] at h
    split at h
    · rcases List.mem_cons.1 h with rfl | h
      · simp
      · exact ih h
    · next hc =>
      -- the character goes in front of the first piece
      cases hcs : pieces sep cs with
      | nil => exact absurd hcs (pieces_ne_nil sep cs)
      | cons first rest =>
        rw [hcs] at h ih
        rcases List.mem_cons.1 h with rfl | h
        · simp only [List.mem_cons, not_or]
          exact ⟨Ne.symm hc, ih List.mem_cons_self⟩
        · exact ih (List.mem_cons_of_mem _ h)

/-- A further character goes to the last piece. -/
theorem pieces_concat {sep c : Char} (h : c ≠ sep) (cs : List Char) :
    ∃ init last, pieces sep cs = init ++ [last] ∧
      pieces sep (cs ++ [c]) = init ++ [last ++ [c]] := by
  induction cs with
  | nil => exact ⟨[], [], rfl, by rw [List.nil_append, pieces, if_neg h]; rfl⟩
  | cons d cs ih =>
    obtain ⟨init, last, hpieces, hconcat⟩ := ih
    rw [List.cons_append, pieces, pieces, hpieces, hconcat]
    split
    · exact ⟨[] :: init, last, rfl, rfl⟩
    · cases init with
      | nil => exact ⟨[], d :: last, rfl, rfl⟩
      | cons piece init => exact ⟨(d :: piece) :: init, last, rfl, rfl⟩

/-- The pieces, joined again. -/
theorem intercalate_pieces (sep : Char) (cs : List Char) :
    String.intercalate (String.singleton sep) ((pieces sep cs).map String.ofList)
      = String.ofList cs := by
  induction cs with
  | nil => rfl
  | cons c cs ih =>
    obtain ⟨first, rest, hpieces⟩ := List.exists_cons_of_ne_nil (pieces_ne_nil sep cs)
    rw [hpieces] at ih
    rw [pieces, hpieces, String.ofList_cons, ← ih]
    split
    · next hc =>
      rw [hc, List.map_cons, List.map_cons, String.intercalate_cons_cons]
      exact congrArg (· ++ _) (String.empty_append)
    · cases rest with
      | nil => exact String.ofList_cons
      | cons next rest =>
        simp only [List.map_cons, String.intercalate_cons_cons, String.ofList_cons,
          String.append_assoc]

/-! ### The last occurrence -/

theorem splitLast?_eq_none {sep : Char} {cs : List Char} (h : splitLast? sep cs = none) :
    sep ∉ cs := by
  induction cs with
  | nil => simp
  | cons c cs ih =>
    rw [splitLast?] at h
    split at h
    · cases h
    · next hrest =>
      split at h
      · cases h
      · next hc => simpa [Ne.symm hc] using ih hrest

/-- What stands behind the last separator does not hold it. -/
theorem not_mem_of_splitLast? {sep : Char} {cs before behind : List Char}
    (h : splitLast? sep cs = some (before, behind)) : sep ∉ behind := by
  induction cs generalizing before with
  | nil => cases h
  | cons c cs ih =>
    rw [splitLast?] at h
    split at h
    · next hrest =>
      cases h
      exact ih hrest
    · next hrest =>
      split at h
      · cases h
        exact splitLast?_eq_none hrest
      · cases h

/-! ### Lines -/

theorem dropEnding?_concat (cs : List Char) (c : Char) : dropEnding? [c] (cs ++ [c]) = some cs := by
  simp [dropEnding?, List.isPrefixOf?]

theorem dropEnding?_eq_some {ending cs rest : List Char} (h : dropEnding? ending cs = some rest) :
    cs = rest ++ ending := by
  obtain ⟨ds, hds, rfl⟩ := Option.map_eq_some_iff.1 h
  refine List.reverse_injective ?_
  rw [List.reverse_append, List.reverse_reverse]
  exact (List.isPrefixOf?_eq_some_iff_append_eq.1 hds).symm

theorem dropReturn_eq (cs : List Char) : dropReturn cs = cs ∨ cs = dropReturn cs ++ ['\r'] := by
  rcases List.eq_nil_or_concat cs with rfl | ⟨rest, c, rfl⟩
  · exact .inl rfl
  · rw [List.concat_eq_append]
    by_cases hc : c = '\r'
    · subst hc
      rw [dropReturn, dropEnding?_concat]
      exact .inr rfl
    · refine .inl ?_
      simp [dropReturn, dropEnding?, List.isPrefixOf?, Ne.symm hc]

/-- A reading of numbered lines that is blind to carriage returns at the end, and finds
nothing in an empty line, finds in the lines what it finds between the line feeds. -/
theorem flatMap_zipIdx_lines {α : Type} {read : List Char × Nat → List α}
    (hnil : ∀ n, read ([], n) = [])
    (hreturn : ∀ line n, read (dropReturn line, n) = read (line, n)) (n : Nat) (cs : List Char) :
    ((lines cs).zipIdx n).flatMap read = ((pieces '\n' cs).zipIdx n).flatMap read := by
  rw [lines]
  induction pieces '\n' cs generalizing n with
  | nil => rfl
  | cons piece rest ih =>
    cases rest with
    | nil =>
      rw [linesOfPieces]
      split
      · next hempty =>
        rw [List.isEmpty_iff.1 hempty, List.zipIdx_singleton, List.flatMap_singleton, hnil]
        rfl
      · rfl
    | cons next rest =>
      rw [linesOfPieces, List.zipIdx_cons, List.zipIdx_cons, List.flatMap_cons,
        List.flatMap_cons, hreturn, ih]

theorem flatMap_lines {α : Type} {read : List Char → List α} (hnil : read [] = [])
    (hreturn : ∀ line, read (dropReturn line) = read line) (cs : List Char) :
    (lines cs).flatMap read = (pieces '\n' cs).flatMap read := by
  have h := @flatMap_zipIdx_lines α (fun line => read line.1) (fun _ => hnil)
    (fun line _ => hreturn line) 0 cs
  rwa [← List.flatMap_map Prod.fst read, ← List.flatMap_map Prod.fst read, List.zipIdx_map_fst,
    List.zipIdx_map_fst] at h

/-! ### The first occurrence -/

theorem splitOnce?_char {sep : Char} {cs : List Char} (h : sep ∉ cs) (rest : List Char) :
    splitOnce? [sep] (cs ++ sep :: rest) = some (cs, rest) := by
  induction cs with
  | nil => simp [splitOnce?, List.isPrefixOf?]
  | cons c cs ih =>
    obtain ⟨hc, hcs⟩ := List.ne_and_not_mem_of_not_mem_cons h
    simp [splitOnce?, List.isPrefixOf?, hc, ih hcs]

theorem splitOnce?_char_eq_none {sep : Char} {cs : List Char} (h : sep ∉ cs) :
    splitOnce? [sep] cs = none := by
  induction cs with
  | nil => rfl
  | cons c cs ih =>
    obtain ⟨hc, hcs⟩ := List.ne_and_not_mem_of_not_mem_cons h
    simp [splitOnce?, List.isPrefixOf?, hc, ih hcs]

/-- Nowhere in the text does `b` stand right after `a`. -/
def PairFree (a b : Char) (cs : List Char) : Prop :=
  cs.IsChain fun x y => ¬ (x = a ∧ y = b)

/-- A pair is found at its first occurrence; nothing before it may hold its second
character. -/
theorem splitOnce?_pair {a b : Char} (hab : a ≠ b) {cs : List Char} (h : b ∉ cs)
    (rest : List Char) : splitOnce? [a, b] (cs ++ a :: b :: rest) = some (cs, rest) := by
  -- the pair is met where the first text ends, as its second character stands nowhere before
  induction cs with
  | nil => simp [splitOnce?, List.isPrefixOf?]
  | cons c cs ih =>
    obtain ⟨-, hcs⟩ := List.ne_and_not_mem_of_not_mem_cons h
    have hnext : ∀ d ds, cs ++ a :: b :: rest = d :: ds → b ≠ d := by
      intro d ds heq
      cases cs with
      | nil =>
        cases heq
        exact Ne.symm hab
      | cons e es =>
        cases heq
        exact (List.ne_and_not_mem_of_not_mem_cons hcs).1
    have hnot : [a, b].isPrefixOf? (c :: (cs ++ a :: b :: rest)) = none := by
      cases heq : cs ++ a :: b :: rest with
      | nil => simp at heq
      | cons d ds => simp [List.isPrefixOf?, hnext d ds heq]
    show splitOnce? [a, b] (c :: (cs ++ a :: b :: rest)) = some (c :: cs, rest)
    rw [splitOnce?, hnot, ih hcs]
    rfl

/-- A text is cut at the separator. -/
theorem splitOnce?_eq_some {sep cs left right : List Char}
    (h : splitOnce? sep cs = some (left, right)) : cs = left ++ sep ++ right := by
  induction cs generalizing left with
  | nil =>
    rw [splitOnce?] at h
    split at h
    · next hsep =>
      cases h
      rw [List.isEmpty_iff.1 hsep]
      rfl
    · cases h
  | cons c cs ih =>
    rw [splitOnce?] at h
    split at h
    · next hpre =>
      cases h
      exact (List.isPrefixOf?_eq_some_iff_append_eq.1 hpre).symm
    · obtain ⟨parts, hparts, heq⟩ := Option.map_eq_some_iff.1 h
      cases heq
      rw [ih hparts]
      rfl

theorem splitOnce?_pair_eq_none {a b : Char} {cs : List Char} (h : PairFree a b cs) :
    splitOnce? [a, b] cs = none := by
  induction cs with
  | nil => rfl
  | cons c cs ih =>
    cases cs with
    | nil => simp [splitOnce?, List.isPrefixOf?]
    | cons d ds =>
      obtain ⟨hpair, htail⟩ := List.isChain_cons_cons.1 h
      have hnot : [a, b].isPrefixOf? (c :: d :: ds) = none := by
        simp only [List.isPrefixOf?, ite_eq_right_iff, beq_iff_eq]
        intro hc hd
        exact absurd ⟨hc.symm, hd.symm⟩ hpair
      rw [splitOnce?, hnot, ih htail]
      rfl

/-- A pair that is not found stands nowhere. -/
theorem pairFree_of_splitOnce?_eq_none {a b : Char} {cs : List Char}
    (h : splitOnce? [a, b] cs = none) : PairFree a b cs := by
  induction cs with
  | nil => exact List.isChain_nil
  | cons c cs ih =>
    rw [splitOnce?] at h
    split at h
    · cases h
    · next hpre =>
      have htail := ih (Option.map_eq_none_iff.1 h)
      cases cs with
      | nil => exact List.isChain_singleton c
      | cons d ds =>
        refine List.isChain_cons_cons.2 ⟨?_, htail⟩
        rintro ⟨rfl, rfl⟩
        simp [List.isPrefixOf?] at hpre

/-- A mark that stands before the first place where a pair can be stands before the pair. -/
theorem mem_of_splitOnce?_pair {a b mark : Char} {before behind left right : List Char}
    (h : splitOnce? [a, b] (before ++ mark :: behind) = some (left, right))
    (hbefore : a ∉ before) (hmark : mark ≠ a) : mark ∈ left := by
  have heq := splitOnce?_eq_some h
  rw [List.append_assoc] at heq
  rcases List.append_eq_append_iff.1 heq with ⟨middle, rfl, hmiddle⟩ | ⟨middle, rfl, hmiddle⟩
  · cases middle with
    | nil => exact absurd (List.cons.inj hmiddle).1 hmark
    | cons d middle =>
      rw [(List.cons.inj hmiddle).1]
      simp
  · cases middle with
    | nil => exact absurd (List.cons.inj hmiddle).1 (Ne.symm hmark)
    | cons d middle =>
      rw [(List.cons.inj hmiddle).1] at hbefore
      simp at hbefore

namespace PairFree

variable {a b : Char} {cs ds : List Char}

theorem of_not_mem_left (h : a ∉ cs) : PairFree a b cs := by
  refine List.isChain_iff_getElem.2 fun n hn => ?_
  rintro ⟨rfl, -⟩
  exact h (List.getElem_mem _)

theorem of_not_mem_right (h : b ∉ cs) : PairFree a b cs := by
  refine List.isChain_iff_getElem.2 fun n hn => ?_
  rintro ⟨-, rfl⟩
  exact h (List.getElem_mem _)

/-- A part of a text holds no pair that the text does not hold. -/
theorem mono (hd : PairFree a b ds) (h : cs <:+: ds) : PairFree a b cs := by
  obtain ⟨before, after, rfl⟩ := h
  exact (List.isChain_append.1 (List.isChain_append.1 hd).1).2.1

/-- No pair arises where the first text ends with another character. -/
theorem append_of_last (hc : PairFree a b cs) (hd : PairFree a b ds)
    (hlast : ∀ x ∈ cs.getLast?, x ≠ a) : PairFree a b (cs ++ ds) :=
  List.isChain_append.2 ⟨hc, hd, fun x hx _ _ hpair => hlast x hx hpair.1⟩

/-- No pair arises where the second text begins with another character. -/
theorem append_of_head (hc : PairFree a b cs) (hd : PairFree a b ds)
    (hhead : ∀ y ∈ ds.head?, y ≠ b) : PairFree a b (cs ++ ds) :=
  List.isChain_append.2 ⟨hc, hd, fun _ _ y hy hpair => hhead y hy hpair.2⟩

end PairFree

/-! ### Openings -/

/-- The end of a text belongs to what stands behind a mark that is not the end itself. -/
theorem exists_inner {a b : Char} (hne : a ≠ b) {before behind body : List Char}
    (h : before ++ a :: behind = body ++ [b]) :
    ∃ inner, inner <+: behind ∧ body = before ++ a :: inner := by
  rcases List.eq_nil_or_concat behind with rfl | ⟨inner, last, rfl⟩
  · exact absurd (List.cons.inj (List.append_inj' h rfl).2).1 hne
  · rw [List.concat_eq_append, ← List.cons_append, ← List.append_assoc] at h
    exact ⟨inner, ⟨[last], List.concat_eq_append.symm⟩, (List.append_inj' h rfl).1.symm⟩

/-- What stands behind an opening is the rest of the text. -/
theorem after?_eq_some_iff {start s rest : String} :
    after? start s = some rest ↔ s = start ++ rest := by
  rw [after?, Option.map_eq_some_iff, ← String.toList_inj, String.toList_append]
  constructor
  · rintro ⟨cs, hcs, rfl⟩
    rw [String.toList_ofList, List.isPrefixOf?_eq_some_iff_append_eq.1 hcs]
  · intro h
    exact ⟨rest.toList, List.isPrefixOf?_eq_some_iff_append_eq.2 h.symm, String.ofList_toList⟩

end MotifQuery.Text
