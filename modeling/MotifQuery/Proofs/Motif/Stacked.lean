import MotifQuery.Proofs.Motif.RoundTrip

/-!
# `MotifQuery.Proofs.Motif.Stacked`: one motif text above another

Each line is cut at its comment, parted into statements and read apart from the lines around
it, and a statement only adds to the motif before it. So texts can be stacked.

* `Motif.readLines_stacked`: the statements of two stacked texts are those of the upper one,
  then those of the lower one; only the numbers of the lines go on.
* `Motif.ofStatements_append`: the motif of two lists of statements is the `Motif.merge` of
  their motifs.
* `Motif.parse_misread_iff`: a text that is not read has a text that is no statement, or has
  no statements at all.
* `Motif.parse_stacked`: stacked texts are read as the merged motif, or fail as the first of
  them that has a text which is no statement.
-/

set_option autoImplicit false

namespace MotifQuery

open Text Number

namespace Motif

/-! ### Stacked texts -/

/-- The same misreading in a text that stands `k` lines further down. -/
def Misread.below (k : Nat) (e : Misread) : Misread :=
  { e with line := e.line + k }

/-- Reading lines does not depend on where their numbers begin. -/
theorem readLines_add (n k : Nat) (ls : List (List Char)) :
    readLines (n + k) ls = (readLines n ls).mapError (Misread.below k) := by
  -- numbering, cutting into statements and reading each commute with the shift
  let shift (text : List Char × Nat) : List Char × Nat := (text.1, text.2 + k)
  have hzip : ls.zipIdx (n + k) = (ls.zipIdx n).map shift := by
    rw [Nat.add_comm, ← List.map_snd_add_zipIdx_eq_zipIdx]
    rfl
  have hnumbered (line : List Char × Nat) : numbered (shift line) = (numbered line).map shift := by
    rw [numbered, numbered, List.map_map]
    rfl
  have hread (text : List Char × Nat) :
      readNumbered (shift text) = (readNumbered text).mapError (Misread.below k) := by
    rw [readNumbered, readNumbered]
    cases Statement.parse text.1 <;> rfl
  rw [readLines, readLines, ← mapM_mapError, hzip, List.flatMap_map, funext hnumbered,
    ← List.map_flatMap, List.mapM_map]
  exact congrArg (List.mapM · _) (funext hread)

/-- A line feed at the end opens no line, and one carriage return before a line feed does not
matter: statements are read as they stand between the line feeds. -/
theorem readLines_lines (n : Nat) (cs : List Char) :
    readLines n (lines cs) = readLines n (pieces '\n' cs) := by
  refine congrArg (List.mapM readNumbered) (flatMap_zipIdx_lines (fun _ => rfl) ?_ n cs)
  intro line m
  rw [numbered, numbered, statementsOn_dropReturn]

/-- The statements of two stacked texts. -/
theorem readLines_stacked (p q : String) :
    readLines 1 (lines (p ++ "\n" ++ q).toList) = (do
      let ss ← readLines 1 (lines p.toList)
      let ss' ← (readLines 1 (lines q.toList)).mapError (.below (1 + p.toList.count '\n'))
      pure (ss ++ ss')) := by
  have hsource : (p ++ "\n" ++ q).toList = p.toList ++ '\n' :: q.toList := by
    rw [String.toList_append, String.toList_append, List.append_assoc]
    rfl
  rw [readLines_lines, readLines_lines, readLines_lines, hsource, pieces_append_sep,
    readLines_append, readLines_add, length_pieces, Nat.add_comm (p.toList.count '\n')]

theorem Misread.toFailure_below (e : Misread) (k : Nat) :
    (e.below k).toFailure = e.toFailure.withContext "line" (natText (e.line + k)) := by
  refine congrArg (fun context => { e.fault.toFailure with context }) ?_
  -- the line was put in before the statement, and is now put in once more
  show _ = ((e.fault.toFailure.context.insert "line" _).insert "statement" _).insert "line" _
  rw [Dict.insert_comm _ (by decide : "statement" ≠ "line"), Dict.insert_insert]
  rfl

/-! ### Merged motifs -/

/-- Two motifs as one: what the second has comes after what the first has. -/
def merge (m other : Motif) : Motif where
  entities := m.entities ++ other.entities.filter fun x => x ∉ m.entities
  edges := m.edges ++ other.edges
  vertexConstraints := m.vertexConstraints.mergeWith (· ++ ·) other.vertexConstraints

theorem constraintsOn_merge (m other : Motif) (x : String) :
    (m.merge other).constraintsOn x = m.constraintsOn x ++ other.constraintsOn x := by
  simp only [constraintsOn, merge, Dict.get?_mergeWith]
  cases m.vertexConstraints.get? x <;> cases other.vertexConstraints.get? x <;> simp

theorem merge_empty (m : Motif) : m.merge empty = m := by
  rw [merge, empty, List.filter_nil, List.append_nil, List.append_nil]
  rfl

theorem merge_mention (m other : Motif) (entity : String) :
    m.merge (other.mention entity) = (m.merge other).mention entity := by
  have hentities : (m.merge (other.mention entity)).entities
      = if entity ∈ (m.merge other).entities then (m.merge other).entities
        else (m.merge other).entities ++ [entity] := by
    simp only [merge, entities_mention, List.mem_append, List.mem_filter]
    -- the entity is new to the merge when it is new to both
    by_cases hm : entity ∈ m.entities <;> by_cases hother : entity ∈ other.entities <;>
      simp [hm, hother]
  rw [mention_eq (m.merge other), ← hentities]
  simp only [merge, edges_mention, vertexConstraints_mention]

theorem merge_constrain (m other : Motif) (entity : String) (c : Constraint) :
    m.merge (other.constrain entity c) = (m.merge other).constrain entity c := by
  have hconstraints : (m.merge (other.constrain entity c)).vertexConstraints
      = ((m.merge other).constrain entity c).vertexConstraints := by
    refine Dict.ext_get? fun x => ?_
    simp only [merge, constrain, Dict.get?_mergeWith, Dict.get?_update]
    split
    · next hx =>
      rw [hx]
      cases m.vertexConstraints.get? entity <;>
        cases other.vertexConstraints.get? entity <;> simp
    · rfl
  exact congrArg (fun vertexConstraints => { m.merge other with vertexConstraints }) hconstraints

theorem merge_connect (m other : Motif) (e : MotifEdge) :
    m.merge (other.connect e) = (m.merge other).connect e := by
  rw [merge, merge, connect, connect, List.append_assoc]

theorem merge_add (m other : Motif) (s : Statement) :
    m.merge (other.add s) = (m.merge other).add s := by
  cases s with
  | edge e =>
    show m.merge (((other.mention e.source).mention e.target).connect e) = _
    rw [merge_connect, merge_mention, merge_mention]
    rfl
  | vertex entity c =>
    show m.merge ((other.mention entity).constrain entity c) = _
    rw [merge_constrain, merge_mention]
    rfl

/-- The motif of two lists of statements is the merge of their motifs. -/
theorem ofStatements_append (ss ss' : List Statement) :
    ofStatements (ss ++ ss') = (ofStatements ss).merge (ofStatements ss') := by
  induction ss' using List.reverseRecOn with
  | nil => rw [List.append_nil]; exact (merge_empty _).symm
  | append_singleton rest s ih =>
    rw [← List.append_assoc, ofStatements_concat, ofStatements_concat, ih, merge_add]

/-! ### Reading stacked texts -/

/-- A text that is read has statements, and its motif is theirs. -/
theorem exists_readLines_of_parse {source : String} {m : Motif} (h : parse source = .ok m) :
    ∃ ss, ss ≠ [] ∧ readLines 1 (lines source.toList) = .ok ss ∧ m = ofStatements ss := by
  obtain ⟨ss, hne, hss, rfl⟩ := parse_eq_ok_iff.1 h
  exact ⟨ss, hne, readLines_eq_ok_iff.2 hss, rfl⟩

/-- A misreading is told apart from the lack of statements. -/
theorem Misread.toFailure_ne_empty (e : Misread) : e.toFailure ≠ Fault.empty.toFailure := by
  intro h
  have hcontext := congrArg (fun f => f.context.get? "statement") h
  simp only [Misread.toFailure, Failure.withContext, Dict.get?_insert] at hcontext
  exact Option.some_ne_none _ hcontext

/-- A text fails on a statement when one of its texts is none. -/
theorem parse_misread_iff {source : String} {f : Failure} :
    parse source = .error f ∧ f ≠ Fault.empty.toFailure
      ↔ ∃ e, readLines 1 (lines source.toList) = .error e ∧ f = e.toFailure := by
  rw [parse_eq]
  constructor
  · rintro ⟨h, hne⟩
    split at h
    · exact absurd (Except.error.inj h).symm hne
    · cases h
    · next e he => exact ⟨e, he, (Except.error.inj h).symm⟩
  · rintro ⟨e, he, rfl⟩
    rw [he]
    exact ⟨rfl, e.toFailure_ne_empty⟩

/-- Two texts that are read are read as the merged motif when one stands above the other. A
failure on a statement of the upper text is that of the stacked texts; where the upper text is
read, so is a failure on a statement of the lower one, its line counted from the top. -/
theorem parse_stacked (p q : String) :
    (∀ m m', parse p = .ok m → parse q = .ok m' →
      parse (p ++ "\n" ++ q) = .ok (m.merge m')) ∧
    (∀ f, parse p = .error f → f ≠ Fault.empty.toFailure →
      parse (p ++ "\n" ++ q) = .error f) ∧
    ∀ m f, parse p = .ok m → parse q = .error f → f ≠ Fault.empty.toFailure →
      ∃ line, f.context.get? "line" = some (natText line) ∧
        parse (p ++ "\n" ++ q) = .error
          (f.withContext "line" (natText (line + (1 + p.toList.count '\n')))) := by
  refine ⟨fun m m' hp hq => ?_, fun f hp hf => ?_, fun m f hp hq hf => ?_⟩
  -- each time the stacked texts are read as the row of both readings
  · obtain ⟨ss, hne, hss, rfl⟩ := exists_readLines_of_parse hp
    obtain ⟨ss', -, hss', rfl⟩ := exists_readLines_of_parse hq
    have hread : readLines 1 (lines (p ++ "\n" ++ q).toList) = .ok (ss ++ ss') := by
      rw [readLines_stacked, hss, hss']
      rfl
    rw [← ofStatements_append]
    exact parse_eq_ok_iff.2 ⟨_, List.append_ne_nil_of_left_ne_nil hne _,
      readLines_eq_ok_iff.1 hread, rfl⟩
  · obtain ⟨e, he, rfl⟩ := parse_misread_iff.1 ⟨hp, hf⟩
    rw [parse_eq, readLines_stacked, he]
    rfl
  · obtain ⟨ss, -, hss, rfl⟩ := exists_readLines_of_parse hp
    obtain ⟨e, he, rfl⟩ := parse_misread_iff.1 ⟨hq, hf⟩
    refine ⟨e.line, ?_, ?_⟩
    · simp only [Misread.toFailure, Failure.withContext, Dict.get?_insert]
      rfl
    · rw [parse_eq, readLines_stacked, hss, he, ← Misread.toFailure_below]
      rfl

/-- Quotes left open, blank statements and carriage returns end with their line. -/
theorem parse_stacked_of_lines :
    ∃ m m' f, parse "A.k = \"x\"y\";;\r" = .ok m ∧ parse "# '\nA !> B" = .ok m' ∧
      parse "\nA B" = .error f ∧ f ≠ Fault.empty.toFailure ∧
      parse ("A.k = \"x\"y\";;\r" ++ "\n" ++ "# '\nA !> B") = .ok (m.merge m') ∧
      parse ("\nA B" ++ "\n" ++ "# '\nA !> B") = .error f ∧
      ∃ line, f.context.get? "line" = some (natText line) ∧
        parse ("A.k = \"x\"y\";;\r" ++ "\n" ++ "\nA B") = .error (f.withContext "line"
          (natText (line + (1 + "A.k = \"x\"y\";;\r".toList.count '\n')))) := by
  have hread : (parse "A.k = \"x\"y\";;\r").toOption.any (·.entities = ["A"]) = true := by
    decide
  have hread' : (parse "# '\nA !> B").toOption.any (·.entities = ["A", "B"]) = true := by decide
  obtain ⟨m, hp, -⟩ := exists_of_any_toOption hread
  obtain ⟨m', hq, -⟩ := exists_of_any_toOption hread'
  obtain ⟨f, hbad, hne⟩ : ∃ f, parse "\nA B" = .error f ∧ f ≠ Fault.empty.toFailure :=
    ⟨Misread.toFailure ⟨2, "A B".toList, .missingComparison "A B"⟩, by decide, by decide⟩
  obtain ⟨hmerge, -, -⟩ := parse_stacked "A.k = \"x\"y\";;\r" "# '\nA !> B"
  obtain ⟨-, hupper, -⟩ := parse_stacked "\nA B" "# '\nA !> B"
  obtain ⟨-, -, hlower⟩ := parse_stacked "A.k = \"x\"y\";;\r" "\nA B"
  exact ⟨m, m', f, hp, hq, hbad, hne, hmerge m m' hp hq, hupper f hbad hne,
    hlower m f hp hbad hne⟩

end Motif

end MotifQuery
