import MotifQuery.Proofs.Aggregation.Grouping
import MotifQuery.Proofs.Service.Agreement

/-!
# `MotifQuery.Proofs.Service.Conservation`: a search loses no match

Every match of a compiled query binds exactly the entities of the query, once each: a query in
statements binds the entities of its motif, a query with columns is restricted to the columns.
What a search answers was aggregated from such matches, so the matches that it counts are the
ones that its results account for (`search_accounts_for_matches`).
-/

set_option autoImplicit false

namespace MotifQuery

/-- The keys of a match are the entities of the query. -/
theorem CompiledQuery.mem_keys_iff_of_mem_find {language : QueryLanguage} {source : String}
    {q : CompiledQuery} (h : compile language source = .ok q) {g : HostGraph} {row : Match}
    (hrow : row ∈ q.find g) (x : String) : x ∈ row.keys ↔ x ∈ q.entities := by
  cases q with
  | statements m => exact Motif.mem_keys_of_mem_find hrow x
  | cypher c =>
    have hcolumns := CypherQuery.columns_subset_of_parse (parse_of_compile h)
    exact CypherQuery.mem_keys_iff_of_mem_find hcolumns hrow x

theorem SearchAnswer.field?_results {b : SearchAnswer} {n : Nat} {results : AggregatedResults}
    (h : b.outcome = .ok (n, results)) :
    b.reply.document.field? "motif_results" = some results.toJson := by
  obtain ⟨stamp, question, aggregation, entities, volumetricData, outcome⟩ := b
  cases h
  rfl

theorem SearchAnswer.field?_entities (b : SearchAnswer) :
    b.reply.document.field? "motif_entities" = some (.strings b.entities) :=
  rfl

namespace Service

variable {s : Surroundings} {v : Service} {id : String} {question : Question}
  {aggregation : Option String} {b : SearchAnswer}

/-- A search names the entities of its query, also where it fails later. -/
theorem entities_of_search (h : (v.search s id question aggregation).1 = .ok b)
    {q : CompiledQuery} (hq : CompiledQuery.compile question.language question.text = .ok q) :
    b.entities = q.entities := by
  obtain ⟨listing, p, -, rfl⟩ := exists_route_of_onHost h
  rw [hq]
  dsimp only
  split <;> rfl

/-- A search that succeeds reports its number of matches, and its results account for exactly
these. Under a grouping the counts of every entity of the query sum up to that number, no other
name is counted as an entity and no count is zero; without a directive there are as many
bindings, and each binds exactly the entities. -/
theorem search_accounts_for_matches (h : (v.search s id question aggregation).1 = .ok b)
    (hb : b.reply.failure? = none) :
    ∃ a n results, Aggregation.parse aggregation = .ok a ∧
      b.reply.document.field? "motif_count" = some (Answer.count (.ok n)) ∧
      b.reply.document.field? "motif_results" = some results.toJson ∧
      b.reply.document.field? "motif_entities" = some (.strings b.entities) ∧
      a.Accounts b.entities n results := by
  obtain ⟨⟨n, results⟩, houtcome⟩ := Answer.failure?_eq_none_iff.1 hb
  obtain ⟨q, a, g, attributes, hcompile, hparse, -, rfl, happly⟩ := search_spec h houtcome
  have hcount : b.reply.document.field? "motif_count"
      = some (Answer.count (.ok (q.find g).length)) := by
    rw [SearchAnswer.field?_count, houtcome]
    rfl
  have haccounts : a.Accounts b.entities (q.find g).length results := by
    rw [entities_of_search h hcompile]
    exact Aggregation.accounts_of_apply happly fun row hrow x =>
      CompiledQuery.mem_keys_iff_of_mem_find hcompile hrow x
  exact ⟨a, _, results, hparse, hcount, SearchAnswer.field?_results houtcome, b.field?_entities,
    haccounts⟩

/-- Of two edges from one vertex, counted by host vertex. -/
theorem search_accounts_for_fan :
    let v := ofGraph "h" (((HostGraph.empty true).addEdge "a" "b" ∅).addEdge "a" "c" ∅)
    let question : Question := ⟨"x -> y", .dotmotif⟩
    ∃ b a n results, (v.search (reporting 0 "") "h" question (some "host.vertex")).1 = .ok b ∧
      Aggregation.parse (some "host.vertex") = .ok a ∧
      b.reply.document.field? "motif_count" = some (Answer.count (.ok n)) ∧
      b.reply.document.field? "motif_count" = some (.nat 2) ∧
      b.entities = ["x", "y"] ∧ a.Accounts b.entities n results := by
  intro v question
  have hsearch : (v.search (reporting 0 "") "h" question (some "host.vertex")).1.toOption.any
      (fun b => b.reply.failure? = none ∧ b.entities = ["x", "y"] ∧
        b.reply.document.field? "motif_count" = some (.nat 2)) = true := by decide +kernel
  obtain ⟨b, hsearch, hb⟩ := exists_of_any_toOption hsearch
  obtain ⟨hb, hentities, htwo⟩ := of_decide_eq_true hb
  obtain ⟨a, n, results, hparse, hcount, -, -, haccounts⟩ := search_accounts_for_matches hsearch hb
  exact ⟨b, a, n, results, hsearch, hparse, hcount, htwo, hentities, haccounts⟩

end Service

end MotifQuery
