import MotifQuery.Proofs.Json.Value
import MotifQuery.Proofs.Text.Trim
import MotifQuery.Proofs.Text.Utf8
import MotifQuery.Worker.Outcome

/-!
# `MotifQuery.Proofs.Worker.Report`: what a report says is what the work gave

Whatever part of its line a worker leaves behind, it is read as the whole report or as no
report (`parse?_front`). So a query that succeeds got its value from the work, through the
document of that value (`exists_of_outcome_eq_success`). Where more than the line feed is
missing there is no report; which outcome that makes depends on the place where the line breaks
off (`WorkerFate.outcome_dies`).
-/

set_option autoImplicit false

namespace MotifQuery

open Text

namespace Outcome

theorem firstLine_append (bs : Bytes) : ∃ rest, bs = firstLine bs ++ rest := by
  induction bs with
  | nil => exact ⟨[], rfl⟩
  | cons b bs ih =>
    rw [firstLine]
    split
    · exact ⟨bs, rfl⟩
    · obtain ⟨rest, hrest⟩ := ih
      exact ⟨rest, congrArg (b :: ·) hrest⟩

theorem firstLine_of_not_mem {bs : Bytes} (h : 10 ∉ bs) : firstLine bs = bs := by
  induction bs with
  | nil => rfl
  | cons b bs ih =>
    obtain ⟨hb, hbs⟩ := List.ne_and_not_mem_of_not_mem_cons h
    rw [firstLine, if_neg (Ne.symm hb), ih hbs]

theorem firstLine_concat {bs : Bytes} (h : 10 ∉ bs) : firstLine (bs ++ [10]) = bs ++ [10] := by
  induction bs with
  | nil => rfl
  | cons b bs ih =>
    obtain ⟨hb, hbs⟩ := List.ne_and_not_mem_of_not_mem_cons h
    rw [List.cons_append, firstLine, if_neg (Ne.symm hb), ih hbs]

end Outcome

namespace Report

/-- A report is an object. -/
theorem exists_document (report : Except Failure Json) :
    ∃ members, (toJson report).document = .object members := by
  cases report with
  | ok value => exact ⟨_, Json.document_ofFields [("Success", value)]⟩
  | error failure => exact ⟨_, Json.document_ofFields [("Failed", failure.toJson)]⟩

theorem line_eq (report : Except Failure Json) :
    line report = encode ((toJson report).compactChars ++ ['\n']) := by
  rw [encode_append, line, bytesOf, Json.compact, String.toList_ofList]
  rfl

/-- The front part of a line is the document of the report where at most the line feed is
missing, and no document elsewhere. -/
theorem parse?_front_cases {report : Except Failure Json} {front back : Bytes} {cs : List Char}
    (h : front ++ back = line report) (hcs : decode? front = some cs) :
    (back.length ≤ 1 ∧ Json.Document.parse? cs = some (toJson report).document) ∨
      (1 < back.length ∧ Json.Document.parse? cs = none) := by
  have hnewline : Json.Spaces ['\n'] := by
    intro c hc
    rw [List.mem_singleton.1 hc]
    rfl
  have htext := Json.compact_text (toJson report)
  rw [line_eq] at h
  obtain ⟨rest, hrest, rfl⟩ := of_decode?_front hcs h
  -- what is missing is nothing, the line feed alone, or more
  rcases List.eq_nil_or_concat rest with rfl | ⟨rest, c, rfl⟩
  · rw [List.append_nil] at hrest
    exact .inl ⟨Nat.zero_le 1, Json.Document.parse?_eq_some_iff.2
      ⟨[], _, ['\n'], .nil, htext, hnewline, hrest.symm⟩⟩
  · rw [List.concat_eq_append, ← List.append_assoc] at hrest
    obtain ⟨hcut, hlast⟩ := List.append_inj' hrest rfl
    obtain rfl := List.singleton_inj.1 hlast
    rcases List.eq_nil_or_concat rest with rfl | ⟨rest, d, rfl⟩
    · rw [List.append_nil] at hcut
      exact .inl ⟨Nat.le_refl 1, hcut ▸ Json.Document.parse?_compact _⟩
    · -- the report breaks off
      obtain ⟨members, hmembers⟩ := exists_document report
      rw [hmembers, hcut] at htext
      have hbreak : rest.concat d ≠ [] := by
        rw [List.concat_eq_append]
        exact List.append_ne_nil_of_right_ne_nil _ (List.cons_ne_nil d [])
      have hlength := length_le_length_encode ((rest.concat d).concat '\n')
      rw [List.length_concat, List.length_concat] at hlength
      exact .inr ⟨by omega, Json.Document.parse?_of_broken htext hbreak⟩

/-- The front part of a line is read as the report of the line, if it is read at all. -/
theorem parse?_front {report : Except Failure Json} {front back : Bytes} {cs : List Char}
    {doc : Json.Document} (h : front ++ back = line report) (hcs : decode? front = some cs)
    (hdoc : Json.Document.parse? cs = some doc) : doc = (toJson report).document := by
  rcases parse?_front_cases h hcs with ⟨-, hwhole⟩ | ⟨-, hnone⟩
  · exact Option.some.inj (hdoc.symm.trans hwhole)
  · rw [hnone] at hdoc
    cases hdoc

variable {α : Type} {limits : ResourceLimits} {value? : Json → Option α} {a : α}

/-! ### Reports that break off -/

/-- A report is one line: the only line feed is its last byte. -/
theorem exists_line (report : Except Failure Json) :
    ∃ front, line report = front ++ [10] ∧ 10 ∉ front := by
  refine ⟨_, rfl, ?_⟩
  rw [bytesOf, Json.compact, String.toList_ofList]
  exact toUInt8_not_mem_encode (c := '\n') (by decide) (Json.newline_not_mem_compactChars _)

section
variable {report : Except Failure Json} {front back : Bytes}

/-- The line feed ends the line, so the first line of what is left of it is all that is left. -/
theorem firstLine_front (h : front ++ back = line report) : Outcome.firstLine front = front := by
  obtain ⟨text, htext, hnewline⟩ := exists_line report
  rw [htext] at h
  rcases List.eq_nil_or_concat back with rfl | ⟨back, b, rfl⟩
  · rw [List.append_nil] at h
    rw [h, Outcome.firstLine_concat hnewline]
  · rw [List.concat_eq_append, ← List.append_assoc] at h
    obtain ⟨rfl, -⟩ := List.append_inj' h rfl
    exact Outcome.firstLine_of_not_mem fun hmem => hnewline (List.mem_append_left back hmem)

/-- What is left of a line is blank only where nothing is left. -/
theorem trim_front_eq_nil {cs : List Char} (h : front ++ back = line report)
    (hcs : decode? front = some cs) (htrim : trim cs = []) : front = [] := by
  obtain ⟨text, htext⟩ : ∃ text, (toJson report).compactChars = '{' :: text := by
    cases report <;> exact ⟨_, rfl⟩
  rw [line_eq, htext] at h
  obtain ⟨rest, hrest, rfl⟩ := of_decode?_front hcs h
  cases cs with
  | nil =>
    rw [hrest, List.nil_append] at h
    exact List.append_left_eq_self.1 h
  | cons c cs =>
    obtain ⟨rfl, -⟩ := List.cons_eq_cons.1 hrest
    exact absurd (blank_of_trim_eq_nil htrim '{' List.mem_cons_self) (by decide)

/-- A line that breaks off before its line feed counts as no report at all where nothing is left
of it or a character is cut through, and as a report that cannot be read everywhere else. -/
theorem ofBytes_of_broken {α : Type} (limits : ResourceLimits) (value? : Json → Option α)
    (h : front ++ back = line report) (hback : 1 < back.length) :
    Outcome.ofBytes limits value? front
      = if front = [] ∨ decode? front = none then .resourceExhausted limits.maxRamBytes
        else .failed unreadable := by
  unfold Outcome.ofBytes
  rw [firstLine_front h]
  cases hcs : decode? front with
  | none => rw [if_pos (.inr rfl)]
  | some cs =>
    have hvalue : Json.parse? cs = none := by
      rcases parse?_front_cases h hcs with ⟨hlength, -⟩ | ⟨-, hnone⟩
      · exact absurd hlength (Nat.not_le.2 hback)
      · rw [Json.parse?, hnone]
        rfl
    dsimp only
    rw [hvalue]
    -- a cut between two characters: the brace in front is no blank, unless nothing was written
    by_cases hfront : front = []
    · subst hfront
      obtain rfl : [] = cs := Option.some.inj hcs
      exact (if_pos (.inl rfl)).symm
    · have htrim : (trim cs).isEmpty = false :=
        List.isEmpty_eq_false_iff.2 fun hnil => hfront (trim_front_eq_nil h hcs hnil)
      rw [htrim, if_neg Bool.false_ne_true, if_neg (by simp [hfront])]
      rfl

end

/-- A success is read from the document of the value in a report of success. -/
theorem exists_of_outcome?_eq_success {report : Except Failure Json} {depth : Nat} {j : Json}
    (hj : (toJson report).document.value? depth = some j)
    (h : outcome? value? j = some (.success a)) :
    ∃ value read depth, report = .ok value ∧ value.document.value? depth = some read ∧
      value? read = some a := by
  cases report with
  | ok value =>
    obtain ⟨read, rfl, hread⟩ := Json.eq_of_value?_single hj
    obtain ⟨a', ha', hsuccess⟩ := Option.map_eq_some_iff.1 h
    cases hsuccess
    exact ⟨value, read, depth - 1, rfl, hread, ha'⟩
  | error failure =>
    obtain ⟨read, rfl, -⟩ := Json.eq_of_value?_single hj
    obtain ⟨f, -, hfailed⟩ := Option.map_eq_some_iff.1 h
    cases hfailed

/-- A success that is read from the front of a line has its value from the report. -/
theorem exists_of_ofBytes_eq_success {report : Except Failure Json} {front back : Bytes}
    (h : front ++ back = line report)
    (hsuccess : Outcome.ofBytes limits value? front = .success a) :
    ∃ value read depth, report = .ok value ∧ value.document.value? depth = some read ∧
      value? read = some a := by
  obtain ⟨rest, hrest⟩ := Outcome.firstLine_append front
  unfold Outcome.ofBytes at hsuccess
  split at hsuccess
  · cases hsuccess
  next cs hcs =>
  split at hsuccess
  · cases hsuccess
  cases hread : (Json.parse? cs).bind (outcome? value?) with
  | none =>
    rw [hread] at hsuccess
    cases hsuccess
  | some outcome =>
    rw [hread] at hsuccess
    obtain rfl : outcome = .success a := hsuccess
    obtain ⟨j, hj, houtcome⟩ := Option.bind_eq_some_iff.1 hread
    obtain ⟨doc, hdoc, hvalue⟩ := Option.bind_eq_some_iff.1 hj
    -- the first line of what is left is also a front part of the report
    rw [hrest, List.append_assoc] at h
    rw [parse?_front h hcs hdoc] at hvalue
    exact exists_of_outcome?_eq_success hvalue houtcome

end Report

/-- A worker that dies before it has written its whole report counts as stopped at its memory
limit only where it has written nothing or dies within a character; everywhere else its report
is unreadable. -/
theorem WorkerFate.outcome_dies {α : Type} (limits : ResourceLimits) (value? : Json → Option α)
    (report : Except Failure Json) {written : Nat}
    (h : written + 1 < (Report.line report).length) :
    (WorkerFate.dies written).outcome limits value? (fun _ => report)
      = if written = 0 ∨ decode? ((Report.line report).take written) = none then
          .resourceExhausted limits.maxRamBytes
        else .failed Report.unreadable := by
  have hbroken := Report.ofBytes_of_broken limits value?
    (List.take_append_drop written (Report.line report)) (by rw [List.length_drop]; omega)
  have hnil : (Report.line report).take written = [] ↔ written = 0 := by
    rw [List.take_eq_nil_iff]
    exact or_iff_left fun hline => by simp [hline] at h
  simp only [hnil] at hbroken
  exact hbroken

example : (WorkerFate.dies 1).outcome {} some (fun _ => .ok .null) = .failed Report.unreadable := by
  decide

/-- A query in a worker that succeeds has its value from the work, through JSON. -/
theorem WorkerFate.exists_of_outcome_eq_success {α : Type} {limits : ResourceLimits}
    {value? : Json → Option α} {result : Unit → Except Failure Json} {fate : WorkerFate} {a : α}
    (h : fate.outcome limits value? result = .success a) :
    ∃ value read depth, result () = .ok value ∧ value.document.value? depth = some read ∧
      value? read = some a := by
  cases fate with
  | reports =>
    change Outcome.ofBytes limits value? (Report.line (result ())) = .success a at h
    exact Report.exists_of_ofBytes_eq_success (List.append_nil _) h
  | dies written =>
    change Outcome.ofBytes limits value? ((Report.line (result ())).take written) = .success a at h
    exact Report.exists_of_ofBytes_eq_success (List.take_append_drop _ _) h
  | overruns after => cases h

end MotifQuery
