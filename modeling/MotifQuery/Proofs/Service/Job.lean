import MotifQuery.Proofs.Worker.Report
import MotifQuery.Service.Job

/-!
# `MotifQuery.Proofs.Service.Job`: what a worker gives back

A job that succeeds gave its value on the graph that was loaded, and the value went through
JSON (`exists_of_run_eq_ok`). Numbers and matches come back as they were, so a count that
succeeds is the count of the matches, and the rows of a search are the matches, whatever the
attribute values sent along are.
-/

set_option autoImplicit false

namespace MotifQuery

theorem Outcome.toResult_eq_ok_iff {α : Type} {o : Outcome α} {a : α} :
    o.toResult = .ok a ↔ o = .success a := by
  cases o <;> simp [Outcome.toResult]

/-! ### Payloads -/

namespace Payload

/-- A match is sent as an object of strings. -/
def matchJson (row : Match) : Json :=
  .object (row.map .str)

theorem plain_matchJson (row : Match) : (matchJson row).Plain :=
  Json.plain_texts row

theorem matchOfJson?_matchJson (row : Match) : matchOfJson? (matchJson row) = some row := by
  show Option.map Dict.ofList ((row.map Json.str).entries.mapM _) = some row
  rw [Dict.mapM_entries_map (g := Json.asString?) fun _ _ => rfl, Option.map_some,
    Dict.ofList_entries]

theorem rowsOfJson?_rows (rows : List Match) :
    rowsOfJson? (.arr (rows.map matchJson)) = some rows := by
  show (rows.map matchJson).mapM matchOfJson? = some rows
  induction rows with
  | nil => rfl
  | cons row rest ih =>
    rw [List.map_cons, List.mapM_cons, matchOfJson?_matchJson, ih]
    rfl

variable {depth : Nat} {read : Json}

/-- A number that comes back is the one that was sent. -/
theorem eq_of_count {m n : Nat} (hread : (count.toJson n).document.value? depth = some read)
    (hm : count.ofJson? read = some m) : m = n :=
  Json.eq_of_natural?_intNumber hread hm

/-- The rows that come back are the ones that were sent. -/
theorem rows_eq_of_findings {f f' : Findings}
    (hread : (findings.toJson f).document.value? depth = some read)
    (hf : findings.ofJson? read = some f') : f'.rows = f.rows := by
  have hmatches : (Dict.ofList [("matches", Json.arr (f.rows.map matchJson)),
      ("vertex_attributes", .object f.attributes)]).get? "matches"
        = some (.arr (f.rows.map matchJson)) := by
    rw [Dict.get?_ofList]
    rfl
  obtain ⟨rowsRead, hfield, hrows⟩ := Json.exists_field?_of_value? hread hmatches
  have hplain : (Json.arr (f.rows.map matchJson)).Plain := by
    refine Json.plainItems_iff.2 fun j hj => ?_
    obtain ⟨row, -, rfl⟩ := List.mem_map.1 hj
    exact plain_matchJson row
  -- texts are plain, so the rows come back as they are; nothing is said about the attributes
  obtain rfl := Json.eq_of_value?_document _ hplain _ _ hrows
  change (read.field? "matches" >>= fun j => rowsOfJson? j >>= _) = some f' at hf
  rw [hfield] at hf
  change (rowsOfJson? (.arr (f.rows.map matchJson)) >>= _) = some f' at hf
  rw [rowsOfJson?_rows] at hf
  change (read.field? "vertex_attributes" >>= _) = some f' at hf
  obtain ⟨attributesRead, -, hf⟩ := Option.bind_eq_some_iff.1 hf
  obtain ⟨attributes, -, hf⟩ := Option.bind_eq_some_iff.1 hf
  obtain rfl := Option.some.inj hf
  rfl

end Payload

/-! ### Jobs -/

namespace Job

variable {α : Type} {s : Surroundings} {limits : ResourceLimits} {p : Provider} {uri : String}
  {d : Disk}

/-- A job that succeeds gave its value on the graph of the provider, and the value went
through JSON. -/
theorem exists_of_run_eq_ok {job : Job α} {a : α} (h : (job.run s limits p uri d).1 = .ok a) :
    ∃ g value read depth, (p.load s d uri).1 = .ok g ∧ job.compute g = .ok value ∧
      (job.payload.toJson value).document.value? depth = some read ∧
      job.payload.ofJson? read = some a := by
  unfold run at h
  obtain ⟨sent, read, depth, hsent, hread, ha⟩ :=
    WorkerFate.exists_of_outcome_eq_success (Outcome.toResult_eq_ok_iff.1 h)
  cases hloaded : (p.load s d uri).1 with
  | error f => rw [hloaded] at hsent; cases hsent
  | ok g =>
    rw [hloaded] at hsent
    cases hvalue : job.compute g with
    | error f =>
      change (job.compute g).map _ = _ at hsent
      rw [hvalue] at hsent
      cases hsent
    | ok value =>
      change (job.compute g).map _ = _ at hsent
      rw [hvalue] at hsent
      cases hsent
      exact ⟨g, value, read, depth, rfl, hvalue, hread, ha⟩

/-- A count that succeeds counts the matches in the graph. -/
theorem of_countMatches_eq_ok {q : CompiledQuery} {n : Nat}
    (h : ((countMatches q).run s limits p uri d).1 = .ok n) :
    ∃ g, (p.load s d uri).1 = .ok g ∧ n = q.count g := by
  obtain ⟨g, value, read, depth, hg, hvalue, hread, hn⟩ := exists_of_run_eq_ok h
  cases hvalue
  exact ⟨g, hg, Payload.eq_of_count hread hn⟩

/-- The rows of a search that succeeds are the matches in the graph. -/
theorem of_search_eq_ok {q : CompiledQuery} {attribute? : Option String} {f : Findings}
    (h : ((search q attribute?).run s limits p uri d).1 = .ok f) :
    ∃ g, (p.load s d uri).1 = .ok g ∧ f.rows = q.find g := by
  obtain ⟨g, value, read, depth, hg, hvalue, hread, hf⟩ := exists_of_run_eq_ok h
  cases hvalue
  exact ⟨g, hg, Payload.rows_eq_of_findings hread hf⟩

end Job

end MotifQuery
