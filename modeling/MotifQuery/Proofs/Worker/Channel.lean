import MotifQuery.Proofs.Json.Meaning
import MotifQuery.Proofs.Service.Job
import MotifQuery.Proofs.Text.Trim

/-!
# `MotifQuery.Proofs.Worker.Channel`: the channel between a worker and its caller

A worker sends one report, as one line of JSON (`Report.exists_line`). The report comes back as
it was sent (`Report.outcome?_toJson`): a failure with all its fields
(`Failure.ofJson?_toJson`), and a value that survives its own way through JSON
(`Payload.Sends`), as do all values that jobs send, up to doubles among the attributes of host
vertices. A worker that dies on the way leaves the front of the line. All of it but the line
feed is still the report; anything shorter is cut inside the object that the report is. So a
report that breaks off is never taken for another one (`WorkerFate.outcome_of_sends`).
-/

set_option autoImplicit false

namespace MotifQuery

open Text

/-! ### Failures as JSON -/

namespace Failure

theorem ofName?_name (c : Category) : Category.ofName? c.name = some c := by
  cases c <;> rfl

theorem hintOfJson?_ofString? (hint : Option String) :
    hintOfJson? (.ofString? hint) = some hint := by
  cases hint <;> rfl

theorem contextOfJson?_object (context : Dict String) :
    contextOfJson? (.object (context.map .str)) = some context :=
  Payload.matchOfJson?_matchJson context

/-- A failure comes back from its JSON. -/
theorem ofJson?_toJson (f : Failure) : ofJson? f.toJson = some f := by
  have hfield (key : String) : f.toJson.field? key = lookupEntry key [
      ("context", .object (f.context.map .str)), ("recovery_hint", .ofString? f.hint),
      ("recoverable", .bool f.recoverable), ("origin", .str f.origin),
      ("message", .str f.message), ("code", .str f.code),
      ("category", .str f.category.name)] :=
    Dict.get?_ofList _ key
  unfold ofJson?
  rw [hfield, hfield, hfield, hfield, hfield, hfield, hfield]
  simp [lookupEntry, Json.asString?, ofName?_name, hintOfJson?_ofString?, contextOfJson?_object]

theorem plain_toJson (f : Failure) : f.toJson.Plain := by
  refine Json.plain_ofFields ?_
  simp only [List.forall_mem_cons, List.not_mem_nil, false_implies, implies_true, and_true]
  refine ⟨trivial, trivial, trivial, trivial, trivial, ?_, Json.plain_texts f.context⟩
  cases f.hint <;> trivial

theorem depth_toJson_le (f : Failure) : f.toJson.depth ≤ 2 := by
  refine Json.depth_ofFields_le ?_
  simp only [List.forall_mem_cons, List.not_mem_nil, false_implies, implies_true, and_true]
  refine ⟨Nat.zero_le 1, Nat.zero_le 1, Nat.zero_le 1, Nat.zero_le 1, Nat.zero_le 1, ?_, ?_⟩
  · cases f.hint <;> exact Nat.zero_le 1
  · exact Json.depth_texts_le f.context

end Failure

/-! ### Values as JSON -/

/-- The value comes back from its JSON, which has no doubles and nests at most 100 deep. -/
structure Payload.Sends {α : Type} (p : Payload α) (a : α) : Prop where
  ofJson?_toJson : p.ofJson? (p.toJson a) = some a
  plain : (p.toJson a).Plain
  depth : (p.toJson a).depth ≤ 100

namespace Payload

theorem sends_count {n : Nat} (h : n < 2 ^ 64) : count.Sends n where
  ofJson?_toJson := by
    show (if 0 ≤ (n : Int) then some (n : Int).toNat else none) = some n
    rw [if_pos (Int.natCast_nonneg n), Int.toNat_natCast]
  plain := ⟨by omega, by omega⟩
  depth := Nat.zero_le 100

theorem sends_text (s : String) : text.Sends s :=
  ⟨rfl, trivial, Nat.zero_le 100⟩

theorem sends_schema (types : Schema) : schema.Sends types where
  ofJson?_toJson := by
    have htype : ∀ type : Option ValueType,
        Schema.typeOfJson? (.ofString? (type.map ValueType.name)) = some type := by
      rintro (_ | type)
      · rfl
      · cases type <;> rfl
    show Option.map Dict.ofList (List.mapM _ (Dict.map _ types).entries) = some types
    rw [Dict.mapM_entries_map (g := Schema.typeOfJson?) fun entry _ => htype entry.2,
      Option.map_some, Dict.ofList_entries]
  plain := by
    refine Json.plain_object.2 fun entry hentry => ?_
    obtain ⟨⟨_, type⟩, -, rfl⟩ := List.mem_map.1 hentry
    cases type <;> trivial
  depth := by
    refine le_trans (Json.depth_object_le fun entry hentry => ?_) (Nat.le_add_left 1 99)
    obtain ⟨⟨_, type⟩, -, rfl⟩ := List.mem_map.1 hentry
    cases type <;> exact Nat.le_refl 0

/-- The rows of a search can always be sent, and the attribute values where they are plain. -/
theorem sends_findings {f : Findings} (hplain : (Json.object f.attributes).Plain)
    (hdepth : (Json.object f.attributes).depth ≤ 99) : findings.Sends f where
  ofJson?_toJson := by
    have hmatches : (findings.toJson f).field? "matches"
        = some (.arr (f.rows.map matchJson)) :=
      Dict.get?_ofList _ _
    have hattributes : (findings.toJson f).field? "vertex_attributes"
        = some (.object f.attributes) :=
      Dict.get?_ofList _ _
    show (do
      let rows ← rowsOfJson? (← (findings.toJson f).field? "matches")
      let attributes ← (← (findings.toJson f).field? "vertex_attributes").asDict?
      some (Findings.mk rows attributes)) = some f
    -- both members are there, and a dictionary that is built from its entries is the same again
    rw [hmatches, hattributes, Option.bind_eq_bind, Option.bind_some, rowsOfJson?_rows]
    show some (Findings.mk f.rows (Dict.ofList f.attributes.entries)) = some f
    rw [Dict.ofList_entries]
  plain := by
    refine Json.plain_ofFields (List.forall_mem_cons.2 ⟨?_, List.forall_mem_singleton.2 hplain⟩)
    exact Json.plainItems_iff.2 (List.forall_mem_map.2 fun row _ => plain_matchJson row)
  depth := by
    have hrows : (Json.arr (f.rows.map matchJson)).depth ≤ 99 :=
      (Json.depth_arr_le (List.forall_mem_map.2 fun row _ => Json.depth_texts_le row)).trans
        (Nat.le_add_left 2 97)
    exact Json.depth_ofFields_le
      (List.forall_mem_cons.2 ⟨hrows, List.forall_mem_singleton.2 hdepth⟩)

end Payload

/-! ### Reports -/

namespace Outcome

variable {α : Type}

/-- The outcome of a query whose worker gets its report through. -/
def ofReport : Except Failure α → Outcome α
  | .ok a => .success a
  | .error f => .failed f

end Outcome

namespace Report

variable {α : Type} {p : Payload α} {report : Except Failure α}

theorem plain_toJson (h : ∀ a, report = .ok a → p.Sends a) :
    (toJson (report.map p.toJson)).Plain := by
  cases report with
  | ok a => exact Json.plain_ofFields (List.forall_mem_singleton.2 (h a rfl).plain)
  | error f => exact Json.plain_ofFields (List.forall_mem_singleton.2 f.plain_toJson)

theorem depth_toJson_lt (h : ∀ a, report = .ok a → p.Sends a) :
    (toJson (report.map p.toJson)).depth < Json.depthLimit := by
  have hdepth : (toJson (report.map p.toJson)).depth ≤ 100 + 1 := by
    cases report with
    | ok a => exact Json.depth_ofFields_le (List.forall_mem_singleton.2 (h a rfl).depth)
    | error f =>
      exact Json.depth_ofFields_le
        (List.forall_mem_singleton.2 (f.depth_toJson_le.trans (Nat.le_add_left 2 98)))
  exact Nat.lt_of_le_of_lt hdepth (by decide)

/-- A report stands for what was reported. -/
theorem outcome?_toJson (h : ∀ a, report = .ok a → p.Sends a) :
    outcome? p.ofJson? (toJson (report.map p.toJson)) = some (.ofReport report) := by
  cases report with
  | ok a =>
    show (p.ofJson? (p.toJson a)).map _ = _
    rw [(h a rfl).ofJson?_toJson]
    rfl
  | error f =>
    show (Failure.ofJson? f.toJson).map _ = _
    rw [f.ofJson?_toJson]
    rfl

/-- Where an object is read, something is not blank. -/
theorem trim_isEmpty_of_parse? {members : List (String × Json.Document)} {cs : List Char}
    (h : Json.Document.parse? cs = some (.object members)) : (trim cs).isEmpty = false := by
  obtain ⟨before, text, after, -, htext, -, rfl⟩ := Json.Document.parse?_eq_some_iff.1 h
  have hbrace : '{' ∈ text := by
    cases htext with
    | emptyObject => exact List.mem_cons_self
    | object => exact List.mem_cons_self
  rw [List.isEmpty_eq_false_iff]
  intro htrim
  exact absurd (blank_of_trim_eq_nil htrim '{' (by simp [hbrace])) (by decide)

variable {front back : Bytes}

/-- Only the line feed may be missing, so the bytes are still text. -/
theorem exists_decode?_front {sent : Except Failure Json} (hline : front ++ back = line sent)
    (hback : back.length ≤ 1) : ∃ cs, decode? front = some cs := by
  rw [line_eq] at hline
  rcases Nat.le_one_iff_eq_zero_or_eq_one.1 hback with hzero | hone
  · obtain rfl := List.length_eq_zero_iff.1 hzero
    rw [List.append_nil] at hline
    exact ⟨_, hline ▸ decode?_encode _⟩
  · rw [encode_append] at hline
    obtain ⟨hfront, -⟩ := List.append_inj' hline hone
    exact ⟨_, hfront ▸ decode?_encode _⟩

variable {limits : ResourceLimits}

/-- What a worker leaves of its line is the report where at most the line feed is missing. -/
theorem ofBytes_front_of_le (h : ∀ a, report = .ok a → p.Sends a)
    (hline : front ++ back = line (report.map p.toJson)) (hback : back.length ≤ 1) :
    Outcome.ofBytes limits p.ofJson? front = .ofReport report := by
  obtain ⟨cs, hcs⟩ := exists_decode?_front hline hback
  obtain ⟨members, hmembers⟩ := exists_document (report.map p.toJson)
  rcases parse?_front_cases hline hcs with ⟨-, hwhole⟩ | ⟨hlength, -⟩
  · have hvalue : Json.parse? cs = some (toJson (report.map p.toJson)) := by
      rw [Json.parse?, hwhole]
      exact Json.value?_document (plain_toJson h) (depth_toJson_lt h)
    have htrim := trim_isEmpty_of_parse? (hwhole.trans (congrArg some hmembers))
    unfold Outcome.ofBytes
    rw [firstLine_front hline, hcs]
    dsimp only
    rw [htrim, if_neg Bool.false_ne_true, hvalue, Option.bind_some, outcome?_toJson h]
    rfl
  · exact absurd hback (Nat.not_le.2 hlength)

/-- What a worker leaves of its line is no report where more than the line feed is missing. -/
theorem ofBytes_front_of_lt (hline : front ++ back = line (report.map p.toJson))
    (hback : 1 < back.length) :
    Outcome.ofBytes limits p.ofJson? front = .resourceExhausted limits.maxRamBytes ∨
      Outcome.ofBytes limits p.ofJson? front = .failed unreadable := by
  rw [ofBytes_of_broken limits p.ofJson? hline hback]
  split
  · exact .inl rfl
  · exact .inr rfl

end Report

/-! ### Workers -/

/-- A value that can be sent and a failure of any kind come through as they are, on one line
with one line feed at its end. A worker that dies on the way is still heard where nothing but
the line feed is missing; otherwise it counts as stopped at its memory limit, or its report as
unreadable, and no other outcome is made of it. -/
theorem WorkerFate.outcome_of_sends {α : Type} (limits : ResourceLimits) (p : Payload α)
    (report : Except Failure α) (h : ∀ a, report = .ok a → p.Sends a) :
    let sent := report.map p.toJson
    let outcome := WorkerFate.outcome limits p.ofJson? fun _ => sent
    (∃ front, Report.line sent = front ++ [10] ∧ 10 ∉ front) ∧
      outcome .reports = .ofReport report ∧
      ∀ written < (Report.line sent).length,
        (written + 1 = (Report.line sent).length → outcome (.dies written) = .ofReport report) ∧
          (written + 1 ≠ (Report.line sent).length →
            outcome (.dies written) = .resourceExhausted limits.maxRamBytes ∨
              outcome (.dies written) = .failed Report.unreadable) := by
  intro sent outcome
  refine ⟨Report.exists_line _, ?_, fun written hwritten => ?_⟩
  · exact Report.ofBytes_front_of_le h (List.append_nil _) (Nat.zero_le 1)
  · have hline := List.take_append_drop written (Report.line sent)
    have hlength : ((Report.line sent).drop written).length
        = (Report.line sent).length - written := List.length_drop
    exact ⟨fun hlast => Report.ofBytes_front_of_le h hline (by omega),
      fun hcut => Report.ofBytes_front_of_lt hline (by omega)⟩

/-- A value with line feeds in a key and in a text. -/
theorem WorkerFate.outcome_of_line_feeds :
    let value : Json := .obj [("a\n", .arr [.str "ü\n\"\\", .int (-3), .obj []])]
    WorkerFate.outcome {} some (fun _ => .ok value) .reports = .success value := by
  intro value
  have hplain : value.Plain :=
    ⟨List.pairwise_singleton _ _,
      ⟨trivial, ⟨by decide, by decide⟩, ⟨.nil, trivial⟩, trivial⟩, trivial⟩
  have hsends : (⟨id, some⟩ : Payload Json).Sends value := ⟨rfl, hplain, by decide⟩
  exact (WorkerFate.outcome_of_sends {} ⟨id, some⟩ (.ok value)
    fun _ heq => Except.ok.inj heq ▸ hsends).2.1

end MotifQuery
