import MotifQuery.Proofs.Cypher.RoundTrip
import MotifQuery.Proofs.Cypher.WellFormed

/-!
# `MotifQuery.Proofs.Cypher.Matched`: the variables that relationships bind

The readers of paths read only what the language writes: each reader that succeeds has tokens
of its thing before what it leaves (`tokens_of_readNode`, `tokens_of_readRelation`,
`tokens_of_readPaths`). So a query that is accepted opens with the tokens of its paths
(`matchClause_of_ofTokens`). Whether there are relationships is asked of all paths together:
a path may be a single node when another one has a relationship (`parse_iff_of_queryText`). A
variable is an end of an edge when it stands in a path with a relationship
(`exists_touches_iff`); the variable of a single node may be an end of none.
-/

set_option autoImplicit false

namespace MotifQuery.Cypher

variable {ts rest : List Token}

/-! ### Tokens that are read -/

theorem eat_eq_true {m : Mark} (h : eat m ts = (true, rest)) : ts = .mark m :: rest := by
  unfold eat at h
  split at h
  · next n rest' =>
    split at h
    · next heq =>
      cases h
      rw [heq]
    · cases h
  · cases h

theorem eatKeyword_eq_true {keyword : String} (h : eatKeyword keyword ts = (true, rest)) :
    ∃ t, KeywordToken keyword t ∧ ts = t :: rest := by
  unfold eatKeyword at h
  split at h
  · split at h
    · next hletters =>
      cases h
      exact ⟨_, .word hletters, rfl⟩
    · cases h
  · cases h

theorem tokens_of_skipMark {m : Mark} (h : skipMark m ts = .ok rest) : ts = .mark m :: rest := by
  unfold skipMark at h
  split at h
  · next heq =>
    cases h
    exact eat_eq_true heq
  · cases h

theorem tokens_of_skipKeyword {keyword : String} (h : skipKeyword keyword ts = .ok rest) :
    ∃ t, KeywordToken keyword t ∧ ts = t :: rest := by
  unfold skipKeyword at h
  split at h
  · next heq =>
    cases h
    exact eatKeyword_eq_true heq
  · cases h

theorem tokens_of_readWord {what text : String} (h : readWord what ts = .ok (text, rest)) :
    ts = .word text :: rest := by
  unfold readWord at h
  split at h
  · cases h
    rfl
  · cases h

theorem tokens_of_readTag {what : String} {tag : Option String}
    (h : readTag what ts = .ok (tag, rest)) : ts = tagTokens tag ++ rest := by
  unfold readTag at h
  split at h
  · next heq =>
    obtain ⟨⟨text, after⟩, hword, hout⟩ := map_eq_ok_iff.1 h
    cases hout
    rw [eat_eq_true heq, tokens_of_readWord hword]
    rfl
  · cases h
    rfl

theorem tokens_of_readNodeVariable {text : String} (h : readNodeVariable ts = .ok (text, rest)) :
    ts = .word text :: rest := by
  unfold readNodeVariable at h
  split at h
  · cases h
    rfl
  · cases h
  · cases h

/-! ### Paths that are read -/

theorem tokens_of_readNode {n : NodePattern} (h : readNode ts = .ok (n, rest)) :
    ts = n.tokens ++ rest := by
  unfold readNode at h
  obtain ⟨ts₁, hopen, h⟩ := bind_eq_ok_iff.1 h
  obtain ⟨⟨x, ts₂⟩, hx, h⟩ := bind_eq_ok_iff.1 h
  obtain ⟨⟨label, ts₃⟩, hlabel, h⟩ := bind_eq_ok_iff.1 h
  obtain ⟨ts₄, hclose, h⟩ := bind_eq_ok_iff.1 h
  cases h
  rw [tokens_of_skipMark hopen, tokens_of_readNodeVariable hx, tokens_of_readTag hlabel,
    tokens_of_skipMark hclose, NodePattern.tokens]
  simp

theorem tokens_of_readBrackets {type : Option String} (h : readBrackets ts = .ok (type, rest)) :
    ∃ bs, BracketTokens type bs ∧ ts = bs ++ rest := by
  unfold readBrackets at h
  split at h
  · cases h
    exact ⟨[], .absent, rfl⟩
  · next inner heq =>
    obtain ⟨⟨type', ts₁⟩, htype, h⟩ := bind_eq_ok_iff.1 h
    obtain ⟨ts₂, hclose, h⟩ := bind_eq_ok_iff.1 h
    cases h
    have htokens := tokens_of_readTag htype
    rw [tokens_of_skipMark hclose] at htokens
    rw [eat_eq_true heq]
    -- a word before the type is the name of the relationship
    unfold dropWord at htokens
    split at htokens
    · next name inner' =>
      exact ⟨_, .named name type, by rw [htokens]; simp⟩
    · exact ⟨_, .unnamed type, by rw [htokens]; simp⟩

theorem tokens_of_readRelation {r : RelationPattern} (h : readRelation ts = .ok (r, rest)) :
    ∃ rs, RelationTokens r rs ∧ ts = rs ++ rest := by
  unfold readRelation at h
  split at h
  · next ts₁ heq =>
    obtain ⟨⟨type, ts₂⟩, hbrackets, h⟩ := bind_eq_ok_iff.1 h
    obtain ⟨ts₃, hdash, h⟩ := bind_eq_ok_iff.1 h
    cases h
    obtain ⟨bs, hbs, hts⟩ := tokens_of_readBrackets hbrackets
    refine ⟨_, .left hbs, ?_⟩
    rw [eat_eq_true heq, hts, tokens_of_skipMark hdash]
    simp
  · obtain ⟨ts₁, hdash, h⟩ := bind_eq_ok_iff.1 h
    obtain ⟨⟨type, ts₂⟩, hbrackets, h⟩ := bind_eq_ok_iff.1 h
    dsimp only at h
    split at h
    · next ts₃ heq =>
      cases h
      obtain ⟨bs, hbs, hts⟩ := tokens_of_readBrackets hbrackets
      refine ⟨_, .right hbs, ?_⟩
      rw [tokens_of_skipMark hdash, hts, eat_eq_true heq]
      simp
    · cases h

theorem tokens_of_readSteps {steps : List (RelationPattern × NodePattern)} {fuel : Nat}
    (h : readSteps fuel ts = .ok (steps, rest)) : ∃ ss, StepsTokens steps ss ∧ ts = ss ++ rest := by
  induction fuel generalizing ts steps with
  | zero =>
    cases h
    exact ⟨[], .nil, rfl⟩
  | succ fuel ih =>
    rw [readSteps] at h
    split at h
    · obtain ⟨⟨r, ts₁⟩, hr, h⟩ := bind_eq_ok_iff.1 h
      obtain ⟨⟨n, ts₂⟩, hn, h⟩ := bind_eq_ok_iff.1 h
      obtain ⟨⟨others, ts₃⟩, hothers, h⟩ := bind_eq_ok_iff.1 h
      cases h
      obtain ⟨rs, hrs, hts⟩ := tokens_of_readRelation hr
      obtain ⟨ss, hss, hts₂⟩ := ih hothers
      refine ⟨_, .cons hrs hss, ?_⟩
      rw [hts, tokens_of_readNode hn, hts₂]
      simp
    · cases h
      exact ⟨[], .nil, rfl⟩

theorem tokens_of_readPath {p : PathPattern} (h : readPath ts = .ok (p, rest)) :
    ∃ ps, PathTokens p ps ∧ ts = ps ++ rest := by
  unfold readPath at h
  obtain ⟨⟨start, ts₁⟩, hstart, h⟩ := bind_eq_ok_iff.1 h
  obtain ⟨⟨steps, ts₂⟩, hsteps, h⟩ := bind_eq_ok_iff.1 h
  cases h
  obtain ⟨ss, hss, hts⟩ := tokens_of_readSteps hsteps
  refine ⟨_, .intro hss, ?_⟩
  rw [tokens_of_readNode hstart, hts, List.append_assoc]

/-- Every path takes a token, so the fuel is not used up and what is read are paths with
commas between them. -/
theorem tokens_of_readPaths {paths : List PathPattern} {fuel : Nat} (hfuel : ts.length < fuel)
    (h : readPaths fuel ts = .ok (paths, rest)) :
    ∃ ps, Separated PathTokens (· = .mark .comma) paths ps ∧ ts = ps ++ rest := by
  induction fuel generalizing ts paths with
  | zero => omega
  | succ fuel ih =>
    rw [readPaths] at h
    obtain ⟨⟨p, ts₁⟩, hp, hnext⟩ := bind_eq_ok_iff.1 h
    obtain ⟨ps, hps, rfl⟩ := tokens_of_readPath hp
    dsimp only at hnext
    split at hnext
    · next ts₂ heq =>
      obtain ⟨⟨others, ts₃⟩, hothers, hout⟩ := bind_eq_ok_iff.1 hnext
      cases hout
      have hts₁ := eat_eq_true heq
      -- the comma is a token, too, so there is fuel for the paths behind it
      have hlength : ts₂.length < fuel := by
        rw [hts₁, List.length_append, List.length_cons] at hfuel
        omega
      obtain ⟨os, hos, hts₂⟩ := ih hlength hothers
      refine ⟨_, .more hps rfl hos, ?_⟩
      rw [hts₁, hts₂]
      simp
    · cases hnext
      exact ⟨ps, .last hps, rfl⟩

/-! ### The clause of the paths -/

/-- The tokens open with the clause of these paths, and another clause follows. -/
inductive MatchClause (paths : List PathPattern) : List Token → Prop where
  | intro {match_ next : Token} {ps rest : List Token} (hmatch : KeywordToken "MATCH" match_)
      (hpaths : Separated PathTokens (· = .mark .comma) paths ps)
      (hnext : KeywordToken "WHERE" next ∨ KeywordToken "RETURN" next) :
      MatchClause paths (match_ :: (ps ++ next :: rest))

theorem matchClause_of_reading {q : CypherQuery} {paths : List PathPattern}
    {cs : List Condition} {motif : Motif} (h : CypherQuery.Reading ts q paths cs motif) :
    MatchClause paths ts := by
  obtain ⟨-, -, -, afterMatch, afterPaths, afterWhere, _, _, hmatch, hpaths, hwhere, hreturn,
    -⟩ := h
  obtain ⟨match_, hkeyword, rfl⟩ := tokens_of_skipKeyword hmatch
  obtain ⟨ps, hps, rfl⟩ := tokens_of_readPaths (Nat.lt_succ_self _) hpaths
  unfold readWhere at hwhere
  split at hwhere
  · next heq =>
    obtain ⟨next, hnext, rfl⟩ := eatKeyword_eq_true heq
    exact .intro hkeyword hps (.inl hnext)
  · -- without conditions the returned variables follow
    cases hwhere
    obtain ⟨next, hnext, rfl⟩ := tokens_of_skipKeyword hreturn
    exact .intro hkeyword hps (.inr hnext)

/-! ### The ends of edges -/

/-- Does a node of the path bind the variable? -/
def PathPattern.Binds (p : PathPattern) (x : String) : Prop :=
  ∃ n ∈ p.nodes, n.variableName = x

theorem RelationPattern.touches_edge (r : RelationPattern) (left right : String) :
    (r.edge left right).touches left = true ∧ (r.edge left right).touches right = true := by
  unfold RelationPattern.edge MotifEdge.touches
  cases r.forward <;> simp

/-- Every step has an edge that touches its node. -/
theorem exists_touches_step {left : String} {steps : List (RelationPattern × NodePattern)} :
    ∀ step ∈ steps, ∃ e ∈ stepEdges left steps, e.touches step.2.variableName = true := by
  induction steps generalizing left with
  | nil => exact fun step hstep => nomatch hstep
  | cons step others ih =>
    intro other hother
    rcases List.mem_cons.1 hother with rfl | hother
    · exact ⟨_, List.mem_cons_self, (other.1.touches_edge _ _).2⟩
    · obtain ⟨e, he, htouches⟩ := @ih step.2.variableName other hother
      exact ⟨e, List.mem_cons_of_mem _ he, htouches⟩

/-- In a path with a relationship every node is an end of an edge, and in any path only nodes
are. -/
theorem PathPattern.exists_touches_iff {p : PathPattern} {x : String} :
    (∃ e ∈ p.arrows, e.touches x = true) ↔ p.steps ≠ [] ∧ p.Binds x := by
  constructor
  · rintro ⟨e, he, htouches⟩
    refine ⟨fun hnil => ?_, ?_⟩
    · rw [p.arrows_eq_nil_iff.2 hnil] at he
      cases he
    · rw [← p.edges_eq_arrows] at he
      obtain ⟨hsource, htarget⟩ := ends_path (P := p.Binds) p (fun n hn => ⟨n, hn, rfl⟩) e he
      rw [MotifEdge.touches, Bool.or_eq_true, beq_iff_eq, beq_iff_eq] at htouches
      rcases htouches with rfl | rfl
      · exact hsource
      · exact htarget
  · rintro ⟨hsteps, n, hn, rfl⟩
    rw [← p.edges_eq_arrows, PathPattern.edges]
    -- the first node begins the first relationship; every other one ends its own
    rcases List.mem_cons.1 hn with rfl | hn
    · obtain ⟨⟨r, m⟩, others, hcons⟩ := List.exists_cons_of_ne_nil hsteps
      rw [hcons]
      exact ⟨_, List.mem_cons_self, (r.touches_edge _ _).1⟩
    · obtain ⟨step, hstep, rfl⟩ := List.mem_map.1 hn
      exact exists_touches_step step hstep

variable {paths : List PathPattern} {cs : List Condition} {x : String}

theorem mem_entities_iff :
    x ∈ (cs.foldl addCondition (paths.foldl addPath Motif.empty)).entities
      ↔ ∃ p ∈ paths, p.Binds x := by
  rw [entities_foldl_addCondition, entities_foldl_addPath, List.mem_eraseDups]
  simp only [List.mem_map, List.mem_flatMap, PathPattern.Binds]
  constructor
  · rintro ⟨n, ⟨p, hp, hn⟩, hx⟩
    exact ⟨p, hp, n, hn, hx⟩
  · rintro ⟨p, hp, n, hn, hx⟩
    exact ⟨n, ⟨p, hp, hn⟩, hx⟩

/-- A variable is an end of an edge when a path with a relationship binds it. -/
theorem exists_touches_iff :
    (∃ e ∈ (cs.foldl addCondition (paths.foldl addPath Motif.empty)).edges, e.touches x = true)
      ↔ ∃ p ∈ paths, p.steps ≠ [] ∧ p.Binds x := by
  rw [edges_foldl_addCondition, edges_foldl_addPath]
  show (∃ e ∈ paths.flatMap PathPattern.arrows, _) ↔ _
  simp only [List.mem_flatMap]
  constructor
  · rintro ⟨e, ⟨p, hp, he⟩, htouches⟩
    exact ⟨p, hp, p.exists_touches_iff.1 ⟨e, he, htouches⟩⟩
  · rintro ⟨p, hp, hbinds⟩
    obtain ⟨e, he, htouches⟩ := p.exists_touches_iff.2 hbinds
    exact ⟨e, ⟨p, hp, he⟩, htouches⟩

/-- What the paths of an accepted query are to its motif. -/
structure Relates (paths : List PathPattern) (m : Motif) : Prop where
  some_related : ∃ p ∈ paths, p.steps ≠ []
  entities_iff : ∀ x, x ∈ m.entities ↔ ∃ p ∈ paths, p.Binds x
  touches_iff : ∀ x, (∃ e ∈ m.edges, e.touches x = true) ↔ ∃ p ∈ paths, p.steps ≠ [] ∧ p.Binds x
  touches_of_related : (∀ p ∈ paths, p.steps ≠ []) →
    ∀ x ∈ m.entities, ∃ e ∈ m.edges, e.touches x = true

theorem relates_of_reading {q : CypherQuery} {motif : Motif}
    (h : CypherQuery.Reading ts q paths cs motif) : Relates paths q.motif := by
  obtain ⟨rfl, hedges, hmotif, -⟩ := h
  rw [hmotif]
  have hsome : ∃ p ∈ paths, p.steps ≠ [] := by
    by_contra hnone
    push Not at hnone
    exact hedges (edges_foldl_addPath_eq_nil_iff.2 hnone)
  refine ⟨hsome, fun x => mem_entities_iff, fun x => exists_touches_iff, fun hall x hx => ?_⟩
  obtain ⟨p, hp, hbinds⟩ := mem_entities_iff.1 hx
  exact exists_touches_iff.2 ⟨p, hp, hall p hp, hbinds⟩

/-! ### Queries -/

/-- A text of a query is accepted when one of its paths has a relationship. -/
theorem parse_iff_of_queryText {p : QueryPattern} {source : String}
    (hknown : ∀ c ∈ p.conditions, c.variableName ∈ p.variableNames)
    (hknown' : ∀ names, p.returned = .listed names → ∀ x ∈ names, x ∈ p.variableNames)
    (h : QueryText p source.toList) :
    (∃ q, CypherQuery.parse source = .ok q) ↔ ∃ path ∈ p.paths, path.steps ≠ [] := by
  obtain ⟨ts, hts, hlayout⟩ := h
  unfold CypherQuery.parse
  rw [tokens_of_layout hlayout]
  dsimp only
  rw [ofTokens_of_known hknown hknown' hts]
  split
  · next herror =>
    -- all paths are single nodes
    split at herror
    · next hedges =>
      have hnone := edges_foldl_addPath_eq_nil_iff.1 (List.isEmpty_iff.1 hedges)
      refine iff_of_false (fun ⟨q, hq⟩ => nomatch hq) ?_
      rintro ⟨path, hpath, hsteps⟩
      exact hsteps (hnone path hpath)
    · cases herror
  · next hok =>
    split at hok
    · cases hok
    · next hedges =>
      refine iff_of_true ⟨_, rfl⟩ ?_
      by_contra hnone
      push Not at hnone
      exact hedges (List.isEmpty_iff.2 (edges_foldl_addPath_eq_nil_iff.2 hnone))

/-- An accepted query opens with its paths. One of them has a relationship, but others may be
single nodes: a variable is an end of an edge exactly when a path with a relationship binds it,
so all are when no path is a single node. A text that the language writes, single nodes allowed
as paths, is accepted exactly when one of its paths has a relationship. -/
theorem parse_relates (source : String) :
    (∀ q : CypherQuery, CypherQuery.parse source = .ok q →
      ∃ ts paths, tokens source.toList = .ok ts ∧ MatchClause paths ts ∧
        Relates paths q.motif) ∧
    (∀ p : QueryPattern, (∀ c ∈ p.conditions, c.variableName ∈ p.variableNames) →
      (∀ names, p.returned = .listed names → ∀ x ∈ names, x ∈ p.variableNames) →
      QueryText p source.toList →
      ((∃ q, CypherQuery.parse source = .ok q) ↔ ∃ path ∈ p.paths, path.steps ≠ [])) := by
  refine ⟨fun q h => ?_, fun p hknown hknown' h =>
    parse_iff_of_queryText hknown hknown' h⟩
  obtain ⟨ts, hts, hq⟩ := CypherQuery.exists_tokens_of_parse h
  obtain ⟨paths, cs, motif, hreading⟩ := CypherQuery.exists_reading hq
  exact ⟨ts, paths, hts, matchClause_of_reading hreading, relates_of_reading hreading⟩

/-- A single node is accepted as a path beside another one. -/
theorem parse_relates_of_single_node :
    ∃ q, CypherQuery.parse "MATCH (a),(b)-->(c) RETURN *" = .ok q ∧
      ∃ ts paths, tokens "MATCH (a),(b)-->(c) RETURN *".toList = .ok ts ∧ MatchClause paths ts ∧
        Relates paths q.motif := by
  have hspace : Filler [' '] := .blank rfl .nil
  have hdone : Layout [] [] := .done (.filler .nil)
  have hending := (hdone.step (t := .mark .star) hspace trivial rfl).step (t := .word "RETURN")
    hspace rfl rfl
  have hpath := (((((((hending.step (t := .mark .closeRound) .nil trivial rfl).step
    (t := .word "c") .nil rfl rfl).step (t := .mark .openRound) .nil trivial rfl).step
    (t := .mark .arrowRight) .nil trivial rfl).step (t := .mark .dash) .nil trivial rfl).step
    (t := .mark .closeRound) .nil trivial rfl).step (t := .word "b") .nil rfl rfl).step
    (t := .mark .openRound) .nil trivial rfl
  have hlayout := ((((hpath.step (t := .mark .comma) .nil trivial rfl).step
    (t := .mark .closeRound) .nil trivial rfl).step (t := .word "a") .nil rfl rfl).step
    (t := .mark .openRound) hspace trivial rfl).step (t := .word "MATCH") .nil rfl rfl
  let p : QueryPattern :=
    { paths := [⟨⟨"a", none⟩, []⟩, ⟨⟨"b", none⟩, [(⟨true, none⟩, ⟨"c", none⟩)]⟩]
      conditions := []
      returned := .everything
      limit := none }
  have hmatch : KeywordToken "MATCH" (.word "MATCH") := .word rfl
  have hreturn : KeywordToken "RETURN" (.word "RETURN") := .word rfl
  have htokens := QueryTokens.intro (q := p) hmatch
    (.more (.intro .nil) rfl (.last (.intro (.cons (.right .absent) .nil)))) .absent hreturn
    .everything .absent .bare
  obtain ⟨hrelates, haccepted⟩ := parse_relates "MATCH (a),(b)-->(c) RETURN *"
  obtain ⟨q, hq⟩ := (haccepted p (fun c hc => nomatch hc) (fun names h => nomatch h)
    ⟨_, htokens, hlayout⟩).2 (by decide)
  exact ⟨q, hq, hrelates q hq⟩

/-- Not every variable of an accepted query is an end of an edge. -/
theorem not_forall_touches :
    ¬ ∀ (source : String) (q : CypherQuery), CypherQuery.parse source = .ok q →
      ∀ x ∈ q.motif.entities, ∃ e ∈ q.motif.edges, e.touches x = true := by
  intro h
  have hparse : (CypherQuery.parse "MATCH (a)-->(b), (c) RETURN a").toOption.any (fun q =>
      q.motif.entities.contains "c" && q.motif.edges.all fun e => !e.touches "c") = true := by
    decide
  obtain ⟨q, hq, hfree⟩ := exists_of_any_toOption hparse
  rw [Bool.and_eq_true, List.contains_iff_mem, List.all_eq_true] at hfree
  obtain ⟨e, he, htouches⟩ := h _ q hq "c" hfree.1
  have hnot := hfree.2 e he
  rw [htouches] at hnot
  cases hnot

end MotifQuery.Cypher
