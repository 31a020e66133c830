import MotifQuery.Proofs.Service.Agreement
import MotifQuery.Proofs.Service.Calls

/-!
# `MotifQuery.Proofs.Service.Refusals`: failures and answers are told apart

A query on a host is refused exactly where no host has its id or no provider accepts the URI of
the host (`HostQuery.refused_or_told`). Every other query gets a reply, whatever becomes of the
worker, the stores and the graph, and the reply tells which of two it is: an answer, which names
no error and counts from zero on, or a failure, which names its message, counts -1 and has
nothing else to give.
-/

set_option autoImplicit false

namespace MotifQuery

/-! ### What a reply tells -/

theorem SizeAnswer.field?_count (a : SizeAnswer) :
    a.reply.document.field? a.part.sizeField = some (Answer.count a.outcome) := by
  obtain ⟨stamp, part, outcome⟩ := a
  cases part <;> rfl

theorem SizeAnswer.field?_error (a : SizeAnswer) :
    a.reply.document.field? "error"
      = some (.ofString? ((Answer.failure? a.outcome).map (·.message))) := by
  obtain ⟨stamp, part, outcome⟩ := a
  cases part <;> rfl

namespace HostQuery

/-- The field with the count of a reply. -/
def countField? : HostQuery → Option String
  | size part _ => some part.sizeField
  | countMatches _ _ | search _ _ _ => some "motif_count"
  | schema _ _ | download _ _ => none

/-- The field with what else a reply gives, and what stands there where there is nothing. -/
def payload? : HostQuery → Option (String × Json)
  | schema _ _ => some ("attributes", .obj [])
  | search _ _ _ => some ("motif_results", .arr [])
  | download _ _ => some ("graph", .str "")
  | size _ _ | countMatches _ _ => none

/-- The reply names no error and counts from zero on. -/
structure Answered (q : HostQuery) (reply : Reply) : Prop where
  failure : reply.failure? = none
  error : reply.document.field? "error" = some .null
  count : ∀ field ∈ q.countField?, ∃ n : Int, 0 ≤ n ∧ reply.document.field? field = some (.int n)

/-- The reply names the message of a failure, counts -1 and gives nothing else. -/
structure Failed (q : HostQuery) (reply : Reply) : Prop where
  failure : ∃ f, reply.failure? = some f ∧ reply.document.field? "error" = some (.str f.message)
  count : ∀ field ∈ q.countField?, reply.document.field? field = some (.int (-1))
  payload : ∀ field empty, q.payload? = some (field, empty) →
    reply.document.field? field = some empty

variable {q : HostQuery} {reply : Reply}

/-- A reply is one or the other. -/
theorem Answered.not_failed (h : q.Answered reply) : ¬ q.Failed reply := by
  rintro ⟨⟨f, hf, -⟩, -, -⟩
  rw [h.failure] at hf
  cases hf

/-- What a reply shows of one outcome tells whether the outcome is a failure. -/
theorem answered_or_failed {α : Type} {outcome : Except Failure α}
    (hfailure : reply.failure? = Answer.failure? outcome)
    (herror : reply.document.field? "error"
      = some (.ofString? ((Answer.failure? outcome).map (·.message))))
    (hcount : ∀ field ∈ q.countField?, ∃ counted, Answer.failure? counted = Answer.failure? outcome
      ∧ reply.document.field? field = some (Answer.count counted))
    (hpayload : ∀ field empty, q.payload? = some (field, empty) →
      ∃ write, reply.document.field? field = some (Answer.shown write empty outcome)) :
    q.Answered reply ∨ q.Failed reply := by
  cases outcome with
  | ok a =>
    refine .inl ⟨hfailure, herror, fun field hfield => ?_⟩
    obtain ⟨counted, hcounted, hshown⟩ := hcount field hfield
    obtain ⟨n, rfl⟩ := Answer.failure?_eq_none_iff.1 hcounted
    exact ⟨_, Int.natCast_nonneg _, hshown⟩
  | error f =>
    refine .inr ⟨⟨f, hfailure, herror⟩, fun field hfield => ?_, fun field empty hfield => ?_⟩
    · obtain ⟨counted, hcounted, hshown⟩ := hcount field hfield
      cases counted with
      | ok n => cases hcounted
      | error f => exact hshown
    · obtain ⟨write, hshown⟩ := hpayload field empty hfield
      exact hshown

end HostQuery

namespace Service

variable {s : Surroundings} {v : Service} {q : HostQuery} {reply : Reply}

/-- Every reply to a query is an answer or a failure. -/
theorem answered_or_failed_of_ask (h : (q.ask s v).1 = .ok reply) :
    q.Answered reply ∨ q.Failed reply := by
  -- each kind of query has an outcome of its own, and its reply is made from that
  cases q with
  | size part id =>
    obtain ⟨a, ha, rfl⟩ := map_eq_ok_iff.1 h
    obtain ⟨listing, p, -, rfl⟩ := exists_route_of_onHost ha
    have hcounted : ∀ a : SizeAnswer, a.part = part →
        (HostQuery.size part id).Answered a.reply ∨ (HostQuery.size part id).Failed a.reply := by
      rintro a rfl
      refine HostQuery.answered_or_failed (rfl : _ = Answer.failure? a.outcome) a.field?_error ?_
        (by rintro _ _ ⟨⟩)
      rintro _ ⟨⟩
      exact ⟨a.outcome, rfl, a.field?_count⟩
    exact hcounted _ rfl
  | schema part id =>
    obtain ⟨a, -, rfl⟩ := map_eq_ok_iff.1 h
    refine HostQuery.answered_or_failed (rfl : _ = Answer.failure? a.outcome) rfl
      (by rintro _ ⟨⟩) ?_
    rintro _ _ ⟨⟩
    exact ⟨_, rfl⟩
  | countMatches id question =>
    obtain ⟨a, -, rfl⟩ := map_eq_ok_iff.1 h
    refine HostQuery.answered_or_failed (rfl : _ = Answer.failure? a.outcome) rfl ?_
      (by rintro _ _ ⟨⟩)
    rintro _ ⟨⟩
    exact ⟨a.outcome, rfl, a.field?_count⟩
  | search id question aggregation =>
    obtain ⟨a, -, rfl⟩ := map_eq_ok_iff.1 h
    refine HostQuery.answered_or_failed (rfl : _ = Answer.failure? a.outcome) rfl ?_ ?_
    · rintro _ ⟨⟩
      refine ⟨a.outcome.map (·.1), ?_, a.field?_count⟩
      cases a.outcome <;> rfl
    · rintro _ _ ⟨⟩
      exact ⟨_, rfl⟩
  | download id format =>
    obtain ⟨a, -, rfl⟩ := map_eq_ok_iff.1 h
    refine HostQuery.answered_or_failed (rfl : _ = Answer.failure? a.outcome) rfl
      (by rintro _ ⟨⟩) ?_
    rintro _ _ ⟨⟩
    exact ⟨_, rfl⟩

/-! ### Refusals -/

variable {id : String}

/-- No host has the id, neither a public one nor an unlisted one. -/
def LacksHost (v : Service) (id : String) : Prop :=
  ∀ h, h ∈ v.registry.listed ∨ h ∈ v.registry.unlisted → h.id ≠ id

/-- No provider accepts the URI of the host with the id. -/
def LacksProvider (s : Surroundings) (v : Service) (id : String) : Prop :=
  ∃ h, v.registry.listing? id = some h ∧
    ∀ entry ∈ v.router.entries, ¬ entry.2.accepts s.now h.uri = true

theorem lacksHost_iff : v.LacksHost id ↔ v.registry.listing? id = none := by
  simp only [LacksHost, HostRegistry.listing?_eq_none_iff, HostRegistry.unlisted?,
    List.find?_eq_none, beq_iff_eq]
  exact ⟨fun h => ⟨fun host hhost => h host (.inl hhost), fun host hhost => h host (.inr hhost)⟩,
    fun h host hhost => hhost.elim (h.1 host) (h.2 host)⟩

theorem LacksHost.not_lacksProvider (h : v.LacksHost id) : ¬ v.LacksProvider s id := by
  rintro ⟨host, hlisting, -⟩
  rw [lacksHost_iff.1 h] at hlisting
  cases hlisting

/-- A host that no one has, and a host that no provider accepts, are not routed; every other
host is. -/
theorem route_cases (s : Surroundings) (v : Service) (id : String) :
    (v.LacksHost id ∧ v.route s id = .error (.hostNotFound id origin)) ∨
      (∃ uri, v.LacksProvider s id ∧ v.route s id = .error (.providerNotFound uri origin)) ∨
      (¬ v.LacksHost id ∧ ¬ v.LacksProvider s id ∧ ∃ h p, v.route s id = .ok (h, p)) := by
  cases hlisting : v.registry.listing? id with
  | none => exact .inl ⟨lacksHost_iff.2 hlisting, route_eq_hostNotFound hlisting⟩
  | some h =>
    cases hprovider : v.providerOf? s h.uri with
    | none =>
      exact .inr (.inl ⟨h.uri, ⟨h, hlisting, List.find?_eq_none.1 hprovider⟩,
        route_eq_providerNotFound hlisting hprovider⟩)
    | some entry =>
      refine .inr (.inr ⟨?_, ?_, h, entry.2, route_of_providerOf? hlisting hprovider⟩)
      · rw [lacksHost_iff, hlisting]
        exact nofun
      · rintro ⟨h', hlisting', hnone⟩
        obtain rfl := Option.some.inj (hlisting.symm.trans hlisting')
        have haccepts : entry.2.accepts s.now h.uri = true := List.find?_some
          (p := fun (entry : String × Provider) => entry.2.accepts s.now h.uri) hprovider
        exact hnone entry (List.mem_of_find?_eq_some hprovider) haccepts

/-- A query on a host that is routed gets a reply. -/
theorem exists_reply_of_route {h : HostListing} {p : Provider}
    (hroute : v.route s q.hostId = .ok (h, p)) : ∃ reply, (q.ask s v).1 = .ok reply :=
  ⟨_, congrArg Prod.fst (ask_eq_carryOut hroute)⟩

end Service

/-- A query is refused because no host has its id, or because no provider accepts the URI of its
host, and for no other reason. Every other query gets a reply, and the reply is an answer or a
failure, told apart by its fields. -/
theorem HostQuery.refused_or_told (s : Surroundings) (v : Service) (q : HostQuery) :
    ((∃ f, (q.ask s v).1 = .error f ∧ f.code = "host_not_found") ↔ v.LacksHost q.hostId) ∧
      ((∃ f, (q.ask s v).1 = .error f ∧ f.code = "provider_not_found")
        ↔ v.LacksProvider s q.hostId) ∧
      ((∃ reply, (q.ask s v).1 = .ok reply ∧ (q.Answered reply ∨ q.Failed reply))
        ↔ ¬ v.LacksHost q.hostId ∧ ¬ v.LacksProvider s q.hostId) := by
  rcases v.route_cases s q.hostId with ⟨hhost, hroute⟩ | ⟨uri, hprovider, hroute⟩ |
    ⟨hhost, hprovider, h, p, hroute⟩
  · have hask := congrArg Prod.fst (Service.ask_eq_error hroute)
    refine ⟨iff_of_true ⟨_, hask, rfl⟩ hhost, iff_of_false ?_ hhost.not_lacksProvider,
      iff_of_false ?_ fun hnot => hnot.1 hhost⟩
    · rintro ⟨f, hf, hcode⟩
      obtain rfl := Except.error.inj (hask.symm.trans hf)
      exact absurd hcode (by simp [Failure.hostNotFound])
    · rintro ⟨reply, hreply, -⟩
      exact nomatch hask.symm.trans hreply
  · have hask := congrArg Prod.fst (Service.ask_eq_error hroute)
    refine ⟨iff_of_false ?_ fun hhost => hhost.not_lacksProvider hprovider,
      iff_of_true ⟨_, hask, rfl⟩ hprovider, iff_of_false ?_ fun hnot => hnot.2 hprovider⟩
    · rintro ⟨f, hf, hcode⟩
      obtain rfl := Except.error.inj (hask.symm.trans hf)
      exact absurd hcode (by simp [Failure.providerNotFound])
    · rintro ⟨reply, hreply, -⟩
      exact nomatch hask.symm.trans hreply
  · obtain ⟨reply, hask⟩ := Service.exists_reply_of_route hroute
    refine ⟨iff_of_false ?_ hhost, iff_of_false ?_ hprovider, iff_of_true
      ⟨reply, hask, Service.answered_or_failed_of_ask hask⟩ ⟨hhost, hprovider⟩⟩
    · rintro ⟨f, hf, -⟩
      exact nomatch hask.symm.trans hf
    · rintro ⟨f, hf, -⟩
      exact nomatch hask.symm.trans hf

end MotifQuery
