import MotifQuery.Service.Query

/-!
# `MotifQuery.Proofs.Service.Plan`: what a query asks for

What a service does for a query on a routed host is planned before the provider is looked at:
`HostQuery.plan` knows the query, the listing and the clock, and gives either a reply or the work
for a worker with what becomes of its outcome. Asking a service routes the host
and carries the plan out (`Service.ask_eq_onHost`).
-/

set_option autoImplicit false

namespace MotifQuery

/-! ### Queries -/

/-- A query on a host. -/
inductive HostQuery where
  | size (part : GraphPart) (id : String)
  | schema (part : GraphPart) (id : String)
  | countMatches (id : String) (question : Question)
  | search (id : String) (question : Question) (aggregation : Option String)
  | download (id format : String)

namespace HostQuery

/-- The host that is asked. -/
def hostId : HostQuery → String
  | size _ id | schema _ id | countMatches id _ | search id _ _ | download id _ => id

/-- The reply to a query, and the service after it. -/
def ask (s : Surroundings) (v : Service) : HostQuery → Except Failure Reply × Service
  | size part id => ((v.size s part id).1.map SizeAnswer.reply, (v.size s part id).2)
  | schema part id => ((v.schema s part id).1.map SchemaAnswer.reply, (v.schema s part id).2)
  | countMatches id question =>
    ((v.countMatches s id question).1.map MatchCountAnswer.reply,
      (v.countMatches s id question).2)
  | search id question aggregation =>
    ((v.search s id question aggregation).1.map SearchAnswer.reply,
      (v.search s id question aggregation).2)
  | download id format =>
    ((v.download s id format).1.map DownloadAnswer.reply, (v.download s id format).2)

end HostQuery

/-! ### Plans -/

/-- What is to be done for a query on a routed host: give a reply, or have a job done and reply
with what becomes of it. -/
inductive Plan : Type 1
  | settled (reply : Reply)
  | work {α : Type} (job : Job α) (reply : Except Failure α → Reply)

/-- What a service does with a provider and a worker. -/
inductive WorkStep
  | prepare
  | start
deriving DecidableEq

namespace Plan

/-- The reply of a plan, and the service after it. -/
def carryOut (s : Surroundings) (v : Service) (h : HostListing) (p : Provider) :
    Plan → Reply × Service
  | settled reply => (reply, v)
  | work job reply => (reply (v.run s h p job).1, (v.run s h p job).2)

/-- What is done for a plan where preparing comes out in some way: the provider is asked for what
the worker is to use, and if it has that, a worker is started. -/
def steps (prepared : Except Failure (Option Provider)) : Plan → List WorkStep
  | settled _ => []
  | work _ _ =>
    match prepared with
    | .error _ => [.prepare]
    | .ok _ => [.prepare, .start]

/-- Where no worker is started, it does not count what workers do. -/
theorem carryOut_of_no_start {s : Surroundings} {h : HostListing} {p : Provider} {plan : Plan}
    (hsteps : WorkStep.start ∉ plan.steps (p.prepare s.now h.uri)) (v : Service)
    (fate : ResourceLimits → (Nat → Bool) → WorkerFate) :
    plan.carryOut { s with fate } v h p = plan.carryOut s v h p := by
  cases plan with
  | settled reply => rfl
  | work job reply =>
    unfold steps at hsteps
    cases hprepare : p.prepare s.now h.uri with
    | error f =>
      -- the job fails as the preparing does
      simp only [carryOut, Service.run, hprepare]
    | ok prepared =>
      rw [hprepare] at hsteps
      exact absurd (List.mem_cons_of_mem _ (List.mem_singleton_self _)) hsteps

end Plan

namespace HostQuery

/-- What is to be done for a query. -/
def plan (s : Surroundings) (h : HostListing) : HostQuery → Plan
  | size part id =>
    .work (.size part) fun outcome =>
      SizeAnswer.reply { stamp := Service.stamp s id, part, outcome }
  | schema part id =>
    .work (.schema part) fun outcome =>
      SchemaAnswer.reply { stamp := Service.stamp s id, outcome }
  | countMatches id question =>
    let answer (entities : List String) (outcome : Except Failure Nat) : Reply :=
      MatchCountAnswer.reply { stamp := Service.stamp s id, question, entities, outcome }
    match CompiledQuery.compile question.language question.text with
    | .error f => .settled (answer [] (.error f))
    | .ok q => .work (.countMatches q) (answer q.entities)
  | search id question aggregation =>
    let answer (entities : List String) (outcome : Except Failure (Nat × AggregatedResults)) :
        Reply :=
      SearchAnswer.reply { stamp := Service.stamp s id, question, aggregation, entities
                           volumetricData := h.volumetricData, outcome }
    match CompiledQuery.compile question.language question.text with
    | .error f => .settled (answer [] (.error f))
    | .ok q =>
      match Aggregation.parse aggregation with
      | .error f => .settled (answer q.entities (.error f))
      | .ok a => .work (.search q a.requiredAttribute) fun found =>
        answer q.entities (found.bind fun f =>
          (a.apply s.seed f.attributes f.rows).map fun results => (f.rows.length, results))
  | download id format =>
    let answer (outcome : Except Failure String) : Reply :=
      DownloadAnswer.reply { stamp := Service.stamp s id, format, outcome }
    if Service.downloadFormats.contains format then .work (.download format) answer
    else .settled (answer (.error (Service.unsupportedDownload format)))

end HostQuery

namespace Service

variable {s : Surroundings} {v : Service} {h : HostListing} {p : Provider} {q : HostQuery}

/-- What becomes of an answer does not count for the routing. -/
theorem map_onHost {α β : Type} (reply : α → β) {id : String}
    (answer : HostListing → Provider → α × Service) :
    ((v.onHost s id answer).1.map reply, (v.onHost s id answer).2)
      = v.onHost s id fun h p => (reply (answer h p).1, (answer h p).2) := by
  unfold onHost
  cases v.route s id <;> rfl

/-- Asking a service routes the host and carries the plan for the query out. -/
theorem ask_eq_onHost (s : Surroundings) (v : Service) (q : HostQuery) :
    q.ask s v = v.onHost s q.hostId fun h p => (q.plan s h).carryOut s v h p := by
  cases q with
  | size part id => exact map_onHost SizeAnswer.reply _
  | schema part id => exact map_onHost SchemaAnswer.reply _
  | countMatches id question =>
    refine (map_onHost MatchCountAnswer.reply _).trans (congrArg (v.onHost s id) ?_)
    funext h p
    rw [HostQuery.plan]
    cases CompiledQuery.compile question.language question.text <;> rfl
  | search id question aggregation =>
    refine (map_onHost SearchAnswer.reply _).trans (congrArg (v.onHost s id) ?_)
    funext h p
    rw [HostQuery.plan]
    cases CompiledQuery.compile question.language question.text with
    | error f => rfl
    | ok compiled => cases Aggregation.parse aggregation <;> rfl
  | download id format =>
    refine (map_onHost DownloadAnswer.reply _).trans (congrArg (v.onHost s id) ?_)
    funext h p
    rw [HostQuery.plan]
    cases downloadFormats.contains format <;> rfl

/-- A query on a host that cannot be routed fails as the routing does. -/
theorem ask_eq_error {f : Failure} (hroute : v.route s q.hostId = .error f) :
    q.ask s v = (.error f, v) := by
  rw [ask_eq_onHost, onHost, hroute]

/-- A query on a host that is routed is answered as planned. -/
theorem ask_eq_carryOut (hroute : v.route s q.hostId = .ok (h, p)) :
    q.ask s v = (.ok ((q.plan s h).carryOut s v h p).1, ((q.plan s h).carryOut s v h p).2) := by
  rw [ask_eq_onHost, onHost, hroute]

end Service

end MotifQuery
