import MotifQuery.Proofs.Service.Refusals

/-!
# `MotifQuery.Proofs.Service.Settled`: what is settled before a worker starts

`HostQuery.Faulty` names the failure that a query has by itself: a text that does not compile,
else a directive that selects no aggregation, else a format that no graph is written in. The plan
for such a query, and for no other, is a reply (`HostQuery.plan_settled_iff`). So the provider,
its graph and the limits count for nothing: `HostQuery.settled_alike` says that two services,
however different, give one reply to such a query and start no worker for it.
-/

set_option autoImplicit false

namespace MotifQuery

/-! ### Queries that are wrong in themselves -/

/-- The query fails by itself, whatever the host is. A directive counts only where the text
compiles. -/
inductive HostQuery.Faulty : HostQuery → Failure → Prop
  | count {id : String} {question : Question} {f : Failure}
      (h : CompiledQuery.compile question.language question.text = .error f) :
      Faulty (.countMatches id question) f
  | search {id : String} {question : Question} {aggregation : Option String} {f : Failure}
      (h : CompiledQuery.compile question.language question.text = .error f) :
      Faulty (.search id question aggregation) f
  | directive {id : String} {question : Question} {aggregation : Option String}
      {compiled : CompiledQuery} {f : Failure}
      (h : CompiledQuery.compile question.language question.text = .ok compiled)
      (hdirective : Aggregation.parse aggregation = .error f) :
      Faulty (.search id question aggregation) f
  | download {id format : String} (h : format ∉ Service.downloadFormats) :
      Faulty (.download id format) (Service.unsupportedDownload format)

/-! ### Settled queries -/

/-- The fields of a reply that tell the time. -/
def timeFields : List String :=
  ["response_time", "response_duration_ms"]

/-- The reply without the fields that tell the time. -/
def Reply.timeless (r : Reply) : Reply where
  document :=
    match r.document with
    | .obj fields => .obj (fields.filter fun field => !timeFields.contains field.1)
    | other => other
  failure? := r.failure?

/-- Replies on one host that are given at two times differ in the time only. -/
theorem timeless_reply {α : Type} (s s' : Surroundings) (id : String)
    (fields : List (String × Json)) (outcome : Except Failure α) :
    (Answer.reply ((Service.stamp s id).fields ++ fields) outcome).timeless
      = (Answer.reply ((Service.stamp s' id).fields ++ fields) outcome).timeless := by
  have hstamp : ∀ stamp : Stamp, (stamp.fields.filter fun field => !timeFields.contains field.1)
      = [("host_id", .str stamp.hostId)] := by
    intro stamp
    simp [Stamp.fields, timeFields]
  simp only [Reply.timeless, Answer.reply, Json.record, List.filter_append, hstamp, Service.stamp]

namespace HostQuery

variable {s s' : Surroundings} {h h' : HostListing} {q : HostQuery} {f : Failure} {r : Reply}

/-- What a reply repeats of the listing of its host. -/
def shown (q : HostQuery) (h : HostListing) : Dict Json :=
  match q with
  | search _ _ _ => h.volumetricData
  | size _ _ | schema _ _ | countMatches _ _ | download _ _ => ∅

/-- A query that is wrong in itself is settled, with its own failure. -/
theorem Faulty.plan_settled (hq : q.Faulty f) (s : Surroundings) (h : HostListing) :
    ∃ r, q.plan s h = .settled r ∧ r.failure? = some f ∧
      r.document.field? "error" = some (.str f.message) := by
  cases hq with
  | count hcompile =>
    rw [plan, hcompile]
    exact ⟨_, rfl, rfl, rfl⟩
  | search hcompile =>
    rw [plan, hcompile]
    exact ⟨_, rfl, rfl, rfl⟩
  | directive hcompile hdirective =>
    rw [plan, hcompile, hdirective]
    exact ⟨_, rfl, rfl, rfl⟩
  | download hformat =>
    rw [plan, if_neg (by simpa using hformat)]
    exact ⟨_, rfl, rfl, rfl⟩

/-- Exactly the queries that are wrong in themselves are settled. -/
theorem plan_settled_iff : (∃ r, q.plan s h = .settled r) ↔ ∃ f, q.Faulty f := by
  -- a query that compiles and has a known directive or format needs the graph
  constructor
  · rintro ⟨r, hr⟩
    cases q with
    | size part id => cases hr
    | schema part id => cases hr
    | countMatches id question =>
      cases hcompile : CompiledQuery.compile question.language question.text with
      | error f => exact ⟨f, .count hcompile⟩
      | ok compiled =>
        rw [plan, hcompile] at hr
        cases hr
    | search id question aggregation =>
      cases hcompile : CompiledQuery.compile question.language question.text with
      | error f => exact ⟨f, .search hcompile⟩
      | ok compiled =>
        cases hdirective : Aggregation.parse aggregation with
        | error f => exact ⟨f, .directive hcompile hdirective⟩
        | ok a =>
          rw [plan, hcompile, hdirective] at hr
          cases hr
    | download id format =>
      by_cases hformat : format ∈ Service.downloadFormats
      · rw [plan, if_pos (by simpa using hformat)] at hr
        cases hr
      · exact ⟨_, .download hformat⟩
  · rintro ⟨f, hq⟩
    obtain ⟨r, hr, -⟩ := hq.plan_settled s h
    exact ⟨r, hr⟩

/-- What is settled at one time is settled at another, with the same reply but for the time. -/
theorem plan_settled_alike (s' : Surroundings) (hshown : q.shown h = q.shown h')
    (hr : q.plan s h = .settled r) :
    ∃ r', q.plan s' h' = .settled r' ∧ r.timeless = r'.timeless := by
  obtain ⟨f, hq⟩ := plan_settled_iff.1 ⟨r, hr⟩
  -- both plans stop at the same fault, and what they say of it comes from the query alone
  cases hq with
  | count hcompile =>
    rw [plan, hcompile] at hr ⊢
    obtain rfl := Plan.settled.inj hr
    refine ⟨_, rfl, ?_⟩
    simp only [MatchCountAnswer.reply, List.append_assoc]
    exact timeless_reply s s' _ _ _
  | search hcompile =>
    change h.volumetricData = h'.volumetricData at hshown
    rw [plan, hcompile] at hr ⊢
    obtain rfl := Plan.settled.inj hr
    refine ⟨_, rfl, ?_⟩
    simp only [SearchAnswer.reply, List.append_assoc, hshown]
    exact timeless_reply s s' _ _ _
  | directive hcompile hdirective =>
    change h.volumetricData = h'.volumetricData at hshown
    rw [plan, hcompile, hdirective] at hr ⊢
    obtain rfl := Plan.settled.inj hr
    refine ⟨_, rfl, ?_⟩
    simp only [SearchAnswer.reply, List.append_assoc, hshown]
    exact timeless_reply s s' _ _ _
  | download hformat =>
    rw [plan, if_neg (by simpa using hformat)] at hr ⊢
    obtain rfl := Plan.settled.inj hr
    exact ⟨_, rfl, timeless_reply s s' _ _ _⟩

/-- Queries that are wrong in themselves are settled alike: two services that route the host,
whatever else they have, give one reply but for the time, with the failure of the query, and
neither prepares nor starts a worker, nor changes. Of two failures the text comes first. -/
theorem settled_alike (hq : q.Faulty f) {v v' : Service} {p p' : Provider}
    (hroute : v.route s q.hostId = .ok (h, p)) (hroute' : v'.route s' q.hostId = .ok (h', p'))
    (hshown : q.shown h = q.shown h') :
    ∃ r r', q.ask s v = (.ok r, v) ∧ q.ask s' v' = (.ok r', v') ∧ r.timeless = r'.timeless ∧
      r.failure? = some f ∧ r.document.field? "error" = some (.str f.message) ∧ q.Failed r ∧
      ∀ prepared, (q.plan s h).steps prepared = [] ∧ (q.plan s' h').steps prepared = [] := by
  obtain ⟨r, hr, hfailure, herror⟩ := hq.plan_settled s h
  obtain ⟨r', hr', halike⟩ := plan_settled_alike s' hshown hr
  have hask : q.ask s v = (.ok r, v) := by rw [Service.ask_eq_carryOut hroute, hr]; rfl
  have hask' : q.ask s' v' = (.ok r', v') := by rw [Service.ask_eq_carryOut hroute', hr']; rfl
  refine ⟨r, r', hask, hask', halike, hfailure, herror, ?_, fun prepared => ?_⟩
  · -- a reply that names a failure is no answer
    refine (Service.answered_or_failed_of_ask (congrArg Prod.fst hask)).resolve_left ?_
    intro hanswered
    exact nomatch hanswered.failure.symm.trans hfailure
  · rw [hr, hr']
    exact ⟨rfl, rfl⟩

/-- A text that breaks off is told alike by a service with a graph and by one whose provider and
workers fail, and the unknown directive beside it is not. -/
theorem settled_alike_of_broken_text :
    let s := Service.reporting 0 ""
    let s' : Surroundings := { s with now := 7, fate := fun _ _ => .dies 0 }
    let v := Service.ofGraph "h" ((HostGraph.empty true).addEdge "a" "b" ∅)
    let broken : FixedHost := { type := "broken", graph := .error (.backendIo "gone" "") }
    let v' : Service := { v with
      router := ⟨[("broken", .fixed broken)]⟩, limits := { maxRamBytes := some 1 } }
    let q := search "h" ⟨"A ->", .dotmotif⟩ (some "mystery")
    ∃ f r r', CompiledQuery.compile .dotmotif "A ->" = .error f ∧ q.ask s v = (.ok r, v) ∧
      q.ask s' v' = (.ok r', v') ∧ r.timeless = r'.timeless ∧ r.failure? = some f := by
  intro s s' v broken v' q
  obtain ⟨f, hcompile⟩ : ∃ f, CompiledQuery.compile .dotmotif "A ->" = .error f := ⟨_, rfl⟩
  obtain ⟨r, r', hask, hask', halike, hfailure, -⟩ := settled_alike (q := q) (.search hcompile)
    (rfl : v.route s "h" = .ok _) (rfl : v'.route s' "h" = .ok _) rfl
  exact ⟨f, r, r', hcompile, hask, hask', halike, hfailure⟩

end HostQuery

end MotifQuery
