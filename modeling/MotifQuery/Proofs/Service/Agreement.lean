import MotifQuery.Proofs.Cypher.Rows
import MotifQuery.Proofs.Except
import MotifQuery.Proofs.Service.Job
import MotifQuery.Service.Query

/-!
# `MotifQuery.Proofs.Service.Agreement`: counting and searching agree

A count and a search start from one compiled query and end in one graph, each by a worker of
its own. What succeeds of them is told by `countMatches_spec` and `search_spec`; so on the same
graph both answers carry the same count (`motifCount_eq_of_same_graph`), and it is the number of
the rows that the search aggregates.
-/

set_option autoImplicit false

namespace MotifQuery

/-! ### Compiled queries -/

namespace CompiledQuery

theorem count_eq_length_find (q : CompiledQuery) (g : HostGraph) :
    q.count g = (q.find g).length := by
  cases q with
  | statements m => exact m.count_eq_length g
  | cypher c => exact c.count_eq_length_find g

theorem parse_of_compile {language : QueryLanguage} {source : String} {c : CypherQuery}
    (h : compile language source = .ok (.cypher c)) : CypherQuery.parse source = .ok c := by
  cases language with
  | dotmotif =>
    change (Motif.parse source).map _ = _ at h
    cases hm : Motif.parse source <;> rw [hm] at h <;> cases h
  | cypher =>
    change (CypherQuery.parse source).map _ = _ at h
    cases hc : CypherQuery.parse source <;> rw [hc] at h <;> cases h
    rfl

end CompiledQuery

/-! ### Answers -/

namespace Answer

theorem failure?_eq_none_iff {α : Type} {outcome : Except Failure α} :
    failure? outcome = none ↔ ∃ a, outcome = .ok a := by
  cases outcome <;> simp [failure?]

end Answer

theorem MatchCountAnswer.field?_count (a : MatchCountAnswer) :
    a.reply.document.field? "motif_count" = some (Answer.count a.outcome) :=
  rfl

theorem SearchAnswer.field?_count (a : SearchAnswer) :
    a.reply.document.field? "motif_count" = some (Answer.count (a.outcome.map (·.1))) :=
  rfl

/-! ### Queries on a host -/

namespace Service

variable {α : Type} {s : Surroundings} {v : Service} {id : String} {question : Question}

/-- The graph that the queries on a host work on. -/
def graph (s : Surroundings) (v : Service) (id : String) : Except Failure HostGraph := do
  let (h, p) ← v.route s id
  let prepared ← p.prepare s.now h.uri
  ((prepared.getD p).load s v.disk h.uri).1

theorem graph_eq {h : HostListing} {p : Provider} {prepared : Option Provider}
    (hroute : v.route s id = .ok (h, p)) (hprepare : p.prepare s.now h.uri = .ok prepared) :
    v.graph s id = ((prepared.getD p).load s v.disk h.uri).1 := by
  unfold graph
  rw [hroute]
  change (p.prepare s.now h.uri >>= _) = _
  rw [hprepare]
  rfl

/-- A query is answered on the host and the provider that it is routed to. -/
theorem exists_route_of_onHost {answer : HostListing → Provider → α × Service} {a : α}
    (h : (v.onHost s id answer).1 = .ok a) :
    ∃ listing p, v.route s id = .ok (listing, p) ∧ (answer listing p).1 = a := by
  unfold onHost at h
  split at h
  · cases h
  · next listing p hroute =>
    cases h
    exact ⟨listing, p, hroute, rfl⟩

/-- A job that succeeds on a host works with what the provider prepares. -/
theorem exists_prepared_of_run {h : HostListing} {p : Provider} {job : Job α} {a : α}
    (hrun : (v.run s h p job).1 = .ok a) :
    ∃ prepared, p.prepare s.now h.uri = .ok prepared ∧
      (job.run s v.limits (prepared.getD p) h.uri v.disk).1 = .ok a := by
  unfold run at hrun
  split at hrun
  · cases hrun
  · next prepared hprepare => exact ⟨prepared, hprepare, hrun⟩

/-- A count that succeeds compiled its query and counted the matches in the graph of the
host. -/
theorem countMatches_spec {a : MatchCountAnswer} {n : Nat}
    (h : (v.countMatches s id question).1 = .ok a) (hn : a.outcome = .ok n) :
    ∃ q g, CompiledQuery.compile question.language question.text = .ok q ∧
      v.graph s id = .ok g ∧ n = q.count g := by
  obtain ⟨listing, p, hroute, rfl⟩ := exists_route_of_onHost h
  split at hn
  · cases hn
  · next q hcompile =>
    obtain ⟨prepared, hprepare, hrun⟩ := exists_prepared_of_run hn
    obtain ⟨g, hg, hcount⟩ := Job.of_countMatches_eq_ok hrun
    exact ⟨q, g, hcompile, (graph_eq hroute hprepare).trans hg, hcount⟩

/-- A search that succeeds compiled its query and its directive and aggregated the matches in
the graph of the host. -/
theorem search_spec {aggregation : Option String} {b : SearchAnswer} {n : Nat}
    {results : AggregatedResults} (h : (v.search s id question aggregation).1 = .ok b)
    (hb : b.outcome = .ok (n, results)) :
    ∃ q a g attributes, CompiledQuery.compile question.language question.text = .ok q ∧
      Aggregation.parse aggregation = .ok a ∧ v.graph s id = .ok g ∧ n = (q.find g).length ∧
      a.apply s.seed attributes (q.find g) = .ok results := by
  obtain ⟨listing, p, hroute, rfl⟩ := exists_route_of_onHost h
  split at hb
  · cases hb
  next q hcompile =>
  split at hb
  · cases hb
  next a haggregation =>
  change ((v.run s listing p (.search q a.requiredAttribute)).1.bind fun f => _) = _ at hb
  cases hfound : (v.run s listing p (.search q a.requiredAttribute)).1 with
  | error f => rw [hfound] at hb; cases hb
  | ok f =>
    rw [hfound] at hb
    change (a.apply s.seed f.attributes f.rows).map _ = _ at hb
    -- the worker searched the graph that its host loaded
    obtain ⟨prepared, hprepare, hrun⟩ := exists_prepared_of_run hfound
    obtain ⟨g, hg, hrows⟩ := Job.of_search_eq_ok hrun
    rw [hrows] at hb
    cases happly : a.apply s.seed f.attributes (q.find g) with
    | error failure => rw [happly] at hb; cases hb
    | ok found =>
      rw [happly] at hb
      cases hb
      exact ⟨q, a, g, f.attributes, hcompile, haggregation,
        (graph_eq hroute hprepare).trans hg, rfl, happly⟩

/-- Where a count and a search of one query succeed on the same graph, both answers carry the
same count. It is the number of the rows that are aggregated; those of a query with columns are
its first matches, as many as the limit allows, restricted to the columns, and the keys of each
are the columns. -/
theorem motifCount_eq_of_same_graph {s s' : Surroundings} {v v' : Service} {id : String}
    {question : Question} {aggregation : Option String} {a : MatchCountAnswer} {b : SearchAnswer}
    (hgraph : v.graph s id = v'.graph s' id)
    (hcount : (v.countMatches s id question).1 = .ok a)
    (hsearch : (v'.search s' id question aggregation).1 = .ok b)
    (ha : a.reply.failure? = none) (hb : b.reply.failure? = none) :
    a.reply.document.field? "motif_count" = b.reply.document.field? "motif_count" ∧
      ∃ q g rows directive attributes results,
        CompiledQuery.compile question.language question.text = .ok q ∧
        v'.graph s' id = .ok g ∧ rows = q.find g ∧
        Aggregation.parse aggregation = .ok directive ∧
        directive.apply s'.seed attributes rows = .ok results ∧
        b.outcome = .ok (rows.length, results) ∧
        ∀ c, q = .cypher c →
          rows = (CypherQuery.firstOf c.limit (c.motif.find g)).map
            (fun row => row.filter fun entity _ => c.columns.contains entity) ∧
          ∀ row ∈ rows, ∀ x, x ∈ row.keys ↔ x ∈ c.columns := by
  obtain ⟨n, hn⟩ := Answer.failure?_eq_none_iff.1 ha
  obtain ⟨⟨m, results⟩, hm⟩ := Answer.failure?_eq_none_iff.1 hb
  obtain ⟨q, g, hcompile, hg, hcounted⟩ := countMatches_spec hcount hn
  obtain ⟨q', directive, g', attributes, hcompile', hdirective, hg', hlength, happly⟩ :=
    search_spec hsearch hm
  obtain rfl := Except.ok.inj (hcompile.symm.trans hcompile')
  obtain rfl := Except.ok.inj (hg.symm.trans (hgraph.trans hg'))
  have hequal : n = m := by rw [hcounted, hlength, q.count_eq_length_find]
  refine ⟨?_, q, g, q.find g, directive, attributes, results, hcompile, hg', rfl, hdirective,
    happly, hlength ▸ hm, ?_⟩
  · rw [MatchCountAnswer.field?_count, SearchAnswer.field?_count, hn, hm, hequal]
    rfl
  · rintro c rfl
    have hcolumns := CypherQuery.columns_subset_of_parse (CompiledQuery.parse_of_compile hcompile)
    exact ⟨c.find_eq_map_firstOf g, fun row hrow => CypherQuery.mem_keys_iff_of_mem_find hcolumns hrow⟩

/-- Surroundings in which every worker reports and no store has an object. -/
def reporting (now : Instant) (freshId : String) : Surroundings where
  now
  freshId
  seed := 0
  fate _ _ := .reports
  stores _ _ _ := .error (.backendIo "no such object" ObjectHost.origin)
  tempDir := ""
  cacheDir := ""
  totalRam := 0

/-- A service with one host, whose graph is given. -/
def ofGraph (hostId : String) (g : HostGraph) : Service where
  router := ⟨[("fixed", .fixed { type := "fixed", graph := .ok g })]⟩
  registry := { listed := [{ id := hostId, uri := "fixed://", name := hostId }] }

/-- Two matches restricted to one column are two equal rows, and both are counted. -/
theorem motifCount_eq_of_repeated_row :
    let v := ofGraph "h" (((HostGraph.empty true).addEdge "a" "b" ∅).addEdge "a" "c" ∅)
    let s := reporting 0 ""
    let question : Question := ⟨"MATCH (x)-[]->(y) RETURN x LIMIT 2", .cypher⟩
    ∃ a b, (v.countMatches s "h" question).1 = .ok a ∧
      (v.search s "h" question (some "host.vertex")).1 = .ok b ∧
      a.outcome = .ok 2 ∧
      a.reply.document.field? "motif_count" = b.reply.document.field? "motif_count" := by
  intro v s question
  have hcount : (v.countMatches s "h" question).1.toOption.any (fun a =>
      a.reply.failure? = none ∧ a.outcome = .ok 2) = true := by decide +kernel
  have hsearch : (v.search s "h" question (some "host.vertex")).1.toOption.any (fun b =>
      b.reply.failure? = none) = true := by decide +kernel
  obtain ⟨a, hcount, ha⟩ := exists_of_any_toOption hcount
  obtain ⟨b, hsearch, hb⟩ := exists_of_any_toOption hsearch
  obtain ⟨ha, houtcome⟩ := of_decide_eq_true ha
  exact ⟨a, b, hcount, hsearch, houtcome,
    (motifCount_eq_of_same_graph rfl hcount hsearch ha (of_decide_eq_true hb)).1⟩

end Service

end MotifQuery
