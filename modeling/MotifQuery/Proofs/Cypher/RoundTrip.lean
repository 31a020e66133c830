import MotifQuery.Proofs.Cypher.Compile
import MotifQuery.Proofs.Cypher.Grammar
import MotifQuery.Proofs.Except
import MotifQuery.Proofs.Motif.RoundTrip

/-!
# `MotifQuery.Proofs.Cypher.RoundTrip`: queries are read as they were written

One lemma for each reader says that it reads the tokens of a thing as that thing and leaves
what follows: `readNode_tokens`, `readRelation_of_tokens`, `readCondition_of_tokens`. The three
lists of the language share `Separated.read`. `ofTokens_of_tokens` puts the parts together,
and `parse_queryText` says what every text of a query is compiled to.
-/

set_option autoImplicit false

namespace MotifQuery.Cypher

open Text Number

/-! ### Keywords -/

/-- A keyword is no other one. -/
theorem KeywordToken.eatKeyword_of_ne {keyword other : String} {t : Token}
    (h : KeywordToken keyword t) (hne : sameLetters keyword.toList other.toList = false)
    (rest : List Token) : eatKeyword other (t :: rest) = (false, t :: rest) := by
  obtain ⟨h⟩ := h
  rw [sameLetters, beq_iff_eq] at h
  rw [eatKeyword, sameLetters, h]
  exact if_neg (Bool.eq_false_iff.1 hne)

theorem KeywordToken.eatKeyword {keyword : String} {t : Token} (h : KeywordToken keyword t)
    (rest : List Token) : eatKeyword keyword (t :: rest) = (true, rest) := by
  obtain ⟨h⟩ := h
  exact if_pos h

theorem KeywordToken.skipKeyword {keyword : String} {t : Token} (h : KeywordToken keyword t)
    (rest : List Token) : skipKeyword keyword (t :: rest) = .ok rest := by
  rw [Cypher.skipKeyword, h.eatKeyword]

/-- No mark is a keyword. -/
theorem KeywordToken.eat {keyword : String} {t : Token} (h : KeywordToken keyword t) (m : Mark)
    (rest : List Token) : eat m (t :: rest) = (false, t :: rest) := by
  obtain ⟨h⟩ := h
  rfl

/-! ### Lists -/

/-- A list is read when its items are, each up to what follows it. -/
theorem Separated.read {α : Type} {Item : α → List Token → Prop} {IsSeparator : Token → Prop}
    {all : Nat → List Token → Except Fault (List α × List Token)}
    (one : List Token → Except Fault (α × List Token)) (drop : List Token → Bool × List Token)
    (Follows : List Token → Prop)
    (hall : ∀ fuel tokens, all (fuel + 1) tokens = one tokens >>= fun out =>
      match drop out.2 with
      | (true, tokens) => all fuel tokens >>= fun others => .ok (out.1 :: others.1, others.2)
      | (false, _) => .ok ([out.1], out.2))
    (hone : ∀ {x ts rest}, Item x ts → Follows rest → one (ts ++ rest) = .ok (x, rest))
    (hsep : ∀ {sep}, IsSeparator sep → ∀ rest,
      drop (sep :: rest) = (true, rest) ∧ Follows (sep :: rest))
    {xs : List α} {ts rest : List Token} (h : Separated Item IsSeparator xs ts)
    (hrest : Follows rest) (hstop : (drop rest).1 = false) :
    ∀ fuel, xs.length ≤ fuel → all fuel (ts ++ rest) = .ok (xs, rest) := by
  -- each item is one step, and the list ends where no separator follows
  induction h with
  | @last x ts hx =>
    intro fuel hfuel
    obtain ⟨fuel, rfl⟩ : ∃ n, fuel = n + 1 := ⟨fuel - 1, by simp at hfuel; omega⟩
    rw [hall, hone hx hrest]
    show (match drop rest with
      | (true, tokens) => _
      | (false, _) => _) = _
    split
    · next heq =>
      rw [heq] at hstop
      cases hstop
    · rfl
  | @more x xs ts others sep hx hs _ ih =>
    intro fuel hfuel
    obtain ⟨fuel, rfl⟩ : ∃ n, fuel = n + 1 := ⟨fuel - 1, by simp at hfuel; omega⟩
    rw [List.append_assoc, List.cons_append, hall,
      hone hx (hsep hs (others ++ rest)).2]
    show (match drop (sep :: (others ++ rest)) with
      | (true, tokens) => _
      | (false, _) => _) = _
    rw [(hsep hs (others ++ rest)).1]
    show (all fuel (others ++ rest) >>= fun out => _) = _
    rw [ih fuel (by simpa using hfuel)]
    rfl

/-- A list with what is known of its items. -/
theorem Separated.with_mem {α : Type} {Item : α → List Token → Prop}
    {IsSeparator : Token → Prop} {P : α → Prop} {xs : List α} {ts : List Token}
    (h : Separated Item IsSeparator xs ts) (hxs : ∀ x ∈ xs, P x) :
    Separated (fun x ts => Item x ts ∧ P x) IsSeparator xs ts := by
  induction h with
  | last hx => exact .last ⟨hx, hxs _ List.mem_cons_self⟩
  | more hx hsep _ ih =>
    exact .more ⟨hx, hxs _ List.mem_cons_self⟩ hsep
      (ih fun y hy => hxs y (List.mem_cons_of_mem _ hy))

/-- Every item of a list takes a token. -/
theorem Separated.length_le {α : Type} {Item : α → List Token → Prop}
    {IsSeparator : Token → Prop} (hitem : ∀ {x ts}, Item x ts → ts ≠ []) {xs : List α}
    {ts : List Token} (h : Separated Item IsSeparator xs ts) : xs.length ≤ ts.length := by
  induction h with
  | last hx => exact List.length_pos_iff.2 (hitem hx)
  | more hx _ _ ih =>
    have := List.length_pos_iff.2 (hitem hx)
    simp only [List.length_append, List.length_cons]
    omega

/-! ### Paths -/

theorem readNode_tokens (n : NodePattern) (rest : List Token) :
    readNode (n.tokens ++ rest) = .ok (n, rest) := by
  obtain ⟨x, label⟩ := n
  cases label <;> rfl

theorem readBrackets_of_tokens {type : Option String} {ts rest : List Token}
    (h : BracketTokens type ts) (hrest : eat .openSquare rest = (false, rest)) :
    readBrackets (ts ++ rest) = .ok (type, rest) := by
  cases h with
  | absent => rw [List.nil_append, readBrackets, hrest]
  | unnamed type => cases type <;> rfl
  | named name type => cases type <;> rfl

theorem readRelation_of_tokens {r : RelationPattern} {ts : List Token} (h : RelationTokens r ts)
    (rest : List Token) : readRelation (ts ++ rest) = .ok (r, rest) := by
  cases h with
  | @right type ts h =>
    have hread : readBrackets (ts ++ .mark .arrowRight :: rest)
        = .ok (type, .mark .arrowRight :: rest) := readBrackets_of_tokens h rfl
    show (readBrackets (ts ++ [.mark .arrowRight] ++ rest) >>= fun out => _) = _
    rw [List.append_assoc, List.singleton_append, hread]
    rfl
  | @left type ts h =>
    have hread : readBrackets (ts ++ .mark .dash :: rest) = .ok (type, .mark .dash :: rest) :=
      readBrackets_of_tokens h rfl
    show (readBrackets (ts ++ [.mark .dash] ++ rest) >>= fun out => _) = _
    rw [List.append_assoc, List.singleton_append, hread]
    rfl

theorem RelationTokens.startsRelation {r : RelationPattern} {ts : List Token}
    (h : RelationTokens r ts) (rest : List Token) : startsRelation (ts ++ rest) = true := by
  cases h <;> rfl

theorem readSteps_of_tokens {steps : List (RelationPattern × NodePattern)} {ts rest : List Token}
    (h : StepsTokens steps ts) (hrest : startsRelation rest = false) :
    ∀ fuel, steps.length < fuel → readSteps fuel (ts ++ rest) = .ok (steps, rest) := by
  induction h with
  | nil =>
    intro fuel hfuel
    obtain ⟨fuel, rfl⟩ : ∃ n, fuel = n + 1 := ⟨fuel - 1, by simp at hfuel; omega⟩
    rw [List.nil_append, readSteps, hrest, if_neg Bool.false_ne_true]
  | @cons r n steps ts others h _ ih =>
    intro fuel hfuel
    obtain ⟨fuel, rfl⟩ : ∃ n, fuel = n + 1 := ⟨fuel - 1, by simp at hfuel; omega⟩
    rw [List.append_assoc, List.append_assoc, readSteps, h.startsRelation, if_pos rfl,
      readRelation_of_tokens h]
    show (readNode (n.tokens ++ (others ++ rest)) >>= fun out => _) = _
    rw [readNode_tokens]
    show (readSteps fuel (others ++ rest) >>= fun out => _) = _
    rw [ih fuel (by simpa using hfuel)]
    rfl

theorem StepsTokens.length_le {steps : List (RelationPattern × NodePattern)} {ts : List Token}
    (h : StepsTokens steps ts) : steps.length ≤ ts.length := by
  induction h with
  | nil => exact Nat.le_refl _
  | cons h _ ih =>
    simp only [List.length_append, List.length_cons, NodePattern.tokens]
    omega

theorem readPath_of_tokens {p : PathPattern} {ts rest : List Token} (h : PathTokens p ts)
    (hrest : startsRelation rest = false) : readPath (ts ++ rest) = .ok (p, rest) := by
  cases h with
  | @intro start steps ts h =>
    have hfuel : steps.length < (ts ++ rest).length + 1 := by
      have := h.length_le
      rw [List.length_append]
      omega
    unfold readPath
    rw [List.append_assoc, readNode_tokens]
    show (readSteps ((ts ++ rest).length + 1) (ts ++ rest) >>= fun out => _) = _
    rw [readSteps_of_tokens h hrest _ hfuel]
    rfl

theorem readPaths_of_tokens {paths : List PathPattern} {ts rest : List Token}
    (h : Separated PathTokens (· = .mark .comma) paths ts) (hrest : startsRelation rest = false)
    (hstop : (eat .comma rest).1 = false) :
    readPaths ((ts ++ rest).length + 1) (ts ++ rest) = .ok (paths, rest) := by
  have hlength : paths.length ≤ ts.length := h.length_le fun hp => by
    cases hp
    exact List.cons_ne_nil _ _
  refine h.read readPath (eat .comma) (startsRelation · = false) (fun _ _ => rfl)
    (fun hp hrest => readPath_of_tokens hp hrest) ?_ hrest hstop _ ?_
  · rintro _ rfl rest
    exact ⟨rfl, rfl⟩
  · rw [List.length_append]
    omega

/-! ### Conditions -/

theorem readKnown_of_mem {known : List String} {x : String} (h : x ∈ known) (rest : List Token) :
    readKnown known (.word x :: rest) = .ok (x, rest) := by
  show (if known.contains x then _ else _) = _
  rw [if_pos (List.contains_iff_mem.2 h)]
  rfl

theorem numberLiteral_of_digits {n : Nat} {digits : String} (h : DigitsText n digits)
    (negative : Bool) (hfits : fitsInt64 (if negative then -(n : Int) else n) = true) :
    numberLiteral negative digits = .ok (.int (if negative then -n else n)) := by
  obtain ⟨hne, hdigits, -⟩ := readNat?_eq_some_iff.1 h
  have hread : readNat? digits.toList = some n := h
  unfold numberLiteral
  -- the sign is read with the digits, so that the least number fits
  cases negative with
  | false =>
    have hint : readInt64? digits.toList = some (n : Int) := by
      rw [readInt64?, readInt?, splitSign_of_digits hdigits]
      dsimp only
      rw [hread]
      exact (Option.filter_some ..).trans (if_pos hfits)
    rw [if_neg Bool.false_ne_true,
      Motif.readLiteral_of_digits hne (fun c hc => .inr (hdigits c hc)) hint]
    rfl
  | true =>
    have hint : readInt64? ('-' :: digits.toList) = some (-(n : Int)) := by
      have hsign : splitSign ('-' :: digits.toList) = (true, digits.toList) := by
        rw [splitSign, if_pos rfl]
      rw [readInt64?, readInt?, hsign]
      dsimp only
      rw [hread]
      exact (Option.filter_some ..).trans (if_pos hfits)
    have hall : ∀ c ∈ '-' :: digits.toList, c = '-' ∨ isAsciiDigit c = true := by
      intro c hc
      rcases List.mem_cons.1 hc with rfl | hc
      · exact .inl rfl
      · exact .inr (hdigits c hc)
    rw [if_pos rfl, Motif.readLiteral_of_digits (List.cons_ne_nil _ _) hall hint]
    rfl

/-- An operator and its value are read together, whoever holds the sign. -/
theorem readComparison_of_tokens {op : Comparison} {value : Json} {ts : List Token}
    (h : ComparisonTokens op value ts) (rest : List Token) :
    ∃ signed tokens, readComparison (ts ++ rest) = .ok ((op, signed), tokens) ∧
      readValue (if signed then (true, tokens) else eat .dash tokens).1
        (if signed then (true, tokens) else eat .dash tokens).2 = .ok (value, rest) := by
  -- a sign that the operator left behind belongs to the value
  have hvalue : ∀ {value ts}, ValueTokens value ts →
      readValue (eat .dash (ts ++ rest)).1 (eat .dash (ts ++ rest)).2 = .ok (value, rest) := by
    intro value ts h
    cases h with
    | @int n digits h hfits =>
      show (numberLiteral false digits).map _ = _
      rw [numberLiteral_of_digits h false hfits]
      rfl
    | @negative n digits h hfits =>
      show (numberLiteral true digits).map _ = _
      rw [numberLiteral_of_digits h true hfits]
      rfl
    | yes h =>
      obtain ⟨h⟩ := h
      exact if_pos h
    | no h =>
      obtain ⟨h⟩ := h
      rename_i text
      have htrue : sameLetters text.toList ['t', 'r', 'u', 'e'] = false := by
        rw [sameLetters, beq_iff_eq] at h
        rw [sameLetters, h]
        rfl
      show (if sameLetters text.toList ['t', 'r', 'u', 'e'] then _ else _) = _
      rw [htrue, if_neg Bool.false_ne_true]
      exact if_pos h
    | str quote text => rfl
  cases h with
  | @apart op m value ts hop h =>
    exact ⟨false, ts ++ rest, by cases hop <;> rfl, hvalue h⟩
  -- the sign went into the arrow, and only a number can follow
  | @joined n digits h hfits =>
    refine ⟨true, .number digits :: rest, rfl, ?_⟩
    show (numberLiteral true digits).map _ = _
    rw [numberLiteral_of_digits h true hfits]
    rfl

theorem readCondition_of_tokens {known : List String} {c : Condition} {ts : List Token}
    (h : ConditionTokens c ts) (hknown : c.variableName ∈ known) (rest : List Token) :
    readCondition known (ts ++ rest) = .ok (c, rest) := by
  cases h with
  | @intro x name op value ts h =>
    obtain ⟨signed, tokens, hop, hvalue⟩ := readComparison_of_tokens h rest
    unfold readCondition
    rw [List.cons_append, List.cons_append, List.cons_append, readKnown_of_mem hknown]
    show (readComparison (ts ++ rest) >>= fun out => _) = _
    rw [hop]
    show (readValue (if signed then (true, tokens) else eat .dash tokens).1
      (if signed then (true, tokens) else eat .dash tokens).2 >>= fun out => _) = _
    rw [hvalue]
    rfl

theorem readWhere_of_tokens {known : List String} {cs : List Condition}
    {ts rest : List Token} {t : Token} (h : WhereTokens cs ts)
    (hknown : ∀ c ∈ cs, c.variableName ∈ known) (ht : KeywordToken "RETURN" t) :
    readWhere known (ts ++ t :: rest) = .ok (cs, t :: rest) := by
  cases h with
  | absent => rw [List.nil_append, readWhere, ht.eatKeyword_of_ne rfl]
  | @present where_ cs ts hwhere h =>
    have hlength : cs.length ≤ ts.length := h.length_le fun hc => by
      cases hc
      exact List.cons_ne_nil _ _
    rw [List.cons_append, readWhere, hwhere.eatKeyword]
    dsimp only
    refine (h.with_mem hknown).read (readCondition known) (eatKeyword "AND") (fun _ => True)
      (fun _ _ => rfl) (fun hc _ => readCondition_of_tokens hc.1 hc.2 _)
      (fun hsep rest => ⟨hsep.eatKeyword rest, trivial⟩) trivial ?_ _ ?_
    · rw [ht.eatKeyword_of_ne rfl]
    · rw [List.length_append]
      omega

/-! ### What is returned -/

/-- The columns of a query. -/
def Returned.columns (known : List String) : Returned → List String
  | everything => known
  | listed names => names.eraseDups

theorem readColumns_of_tokens {known : List String} {r : Returned} {ts rest : List Token}
    (h : ReturnedTokens r ts) (hknown : ∀ names, r = .listed names → ∀ x ∈ names, x ∈ known)
    (hstop : (eat .comma rest).1 = false) :
    readColumns known (ts ++ rest) = .ok (r.columns known, rest) := by
  cases h with
  | everything => rfl
  | @listed names ts h =>
    have hlength : names.length ≤ ts.length := h.length_le fun hx => by
      rw [hx]
      exact List.cons_ne_nil _ _
    have hread : readVariables known ((ts ++ rest).length + 1) (ts ++ rest)
        = .ok (names, rest) := by
      refine (h.with_mem (hknown names rfl)).read (readKnown known) (eat .comma)
        (fun _ => True) (fun _ _ => rfl) ?_ ?_ trivial hstop _ ?_
      · rintro x _ rest ⟨rfl, hx⟩ -
        exact readKnown_of_mem hx rest
      · rintro _ rfl rest
        exact ⟨rfl, trivial⟩
      · rw [List.length_append]
        omega
    -- a list begins with a word, not with the mark for everything
    have hstar : eat .star (ts ++ rest) = (false, ts ++ rest) := by
      cases h with
      | last hx =>
        rw [hx]
        rfl
      | more hx hsep _ =>
        rw [hx]
        rfl
    rw [readColumns, hstar]
    dsimp only
    rw [hread]
    rfl

theorem readLimit_of_tokens {limit : Option Nat} {ts rest : List Token}
    (h : LimitTokens limit ts) (hrest : EndTokens rest) :
    readLimit (ts ++ rest) = .ok (limit, rest) := by
  cases h with
  | absent => cases hrest <;> rfl
  | @present t n digits hlimit h hfits =>
    obtain ⟨hne, hdigits, -⟩ := readNat?_eq_some_iff.1 h
    have hread : readNat? digits.toList = some n := h
    have hnumber : readUInt64? digits.toList = some n := by
      unfold readUInt64?
      split
      · next rest heq =>
        -- a number token has no sign in front
        have hplus := hdigits '+' (by rw [heq]; exact List.mem_cons_self)
        exact absurd hplus (by decide)
      · dsimp only
        rw [hread]
        exact (Option.filter_some ..).trans (if_pos (decide_eq_true hfits))
    have hkeyword := hlimit.eatKeyword (.number digits :: rest)
    show readLimit (t :: .number digits :: rest) = _
    unfold readLimit
    rw [hkeyword]
    dsimp only
    rw [hnumber]

theorem readEnd_of_tokens {ts : List Token} (h : EndTokens ts) : readEnd ts = .ok () := by
  cases h <;> rfl

/-! ### Queries -/

/-- A keyword follows the paths, whether or not there are conditions. -/
theorem WhereTokens.exists_keyword {cs : List Condition} {ts : List Token} {t : Token}
    (h : WhereTokens cs ts) (ht : KeywordToken "RETURN" t) (rest : List Token) :
    ∃ keyword u others, KeywordToken keyword u ∧ ts ++ t :: rest = u :: others := by
  cases h with
  | absent => exact ⟨_, _, _, ht, rfl⟩
  | present hwhere _ => exact ⟨_, _, _, hwhere, rfl⟩

theorem KeywordToken.startsRelation {keyword : String} {t : Token} (h : KeywordToken keyword t)
    (rest : List Token) : startsRelation (t :: rest) = false := by
  obtain ⟨h⟩ := h
  rfl

theorem LimitTokens.eat_comma {limit : Option Nat} {ts rest : List Token}
    (h : LimitTokens limit ts) (hrest : EndTokens rest) :
    (eat .comma (ts ++ rest)).1 = false := by
  cases h with
  | absent => cases hrest <;> rfl
  | present hlimit _ _ => exact congrArg Prod.fst (hlimit.eat .comma _)

theorem Separated.ne_nil {α : Type} {Item : α → List Token → Prop} {IsSeparator : Token → Prop}
    {xs : List α} {ts : List Token} (h : Separated Item IsSeparator xs ts) : xs ≠ [] := by
  cases h <;> exact List.cons_ne_nil _ _

/-- What a query is compiled to. -/
def QueryPattern.compiled (q : QueryPattern) : CypherQuery :=
  { motif := q.conditions.foldl addCondition (q.paths.foldl addPath .empty)
    columns := q.returned.columns q.variableNames
    limit := q.limit }

/-- A path has edges when it has relationships. -/
theorem PathPattern.arrows_eq_nil_iff {p : PathPattern} : p.arrows = [] ↔ p.steps = [] := by
  obtain ⟨start, steps⟩ := p
  cases steps with
  | nil => exact iff_of_true rfl rfl
  | cons step rest => exact iff_of_false (List.cons_ne_nil _ _) (List.cons_ne_nil _ _)

/-- Paths have edges when one of them has a relationship. -/
theorem edges_foldl_addPath_eq_nil_iff {paths : List PathPattern} :
    (paths.foldl addPath .empty).edges = [] ↔ ∀ p ∈ paths, p.steps = [] := by
  rw [edges_foldl_addPath]
  show paths.flatMap PathPattern.arrows = [] ↔ _
  simp only [List.flatMap_eq_nil_iff, PathPattern.arrows_eq_nil_iff]

/-- The tokens of a query are read as that query when a path has a relationship. They are
refused otherwise. -/
theorem ofTokens_of_known {q : QueryPattern} {ts : List Token}
    (hknown : ∀ c ∈ q.conditions, c.variableName ∈ q.variableNames)
    (hknown' : ∀ names, q.returned = .listed names → ∀ x ∈ names, x ∈ q.variableNames)
    (h : QueryTokens q ts) :
    CypherQuery.ofTokens ts =
      if (q.paths.foldl addPath .empty).edges.isEmpty then
        .error (.unsupported "MATCH needs at least one relationship")
      else .ok q.compiled := by
  obtain ⟨hmatch, hpaths, hconditions, hreturn, hreturned, hlimit, hending⟩ := h
  rename_i match_ return_ paths conditions returned limit ending
  obtain ⟨keyword, t, others, ht, hfollow⟩ :=
    hconditions.exists_keyword hreturn (returned ++ (limit ++ ending))
  have hentities : (q.paths.foldl addPath .empty).entities = q.variableNames :=
    entities_foldl_addPath q.paths
  have hread := readPaths_of_tokens hpaths (ht.startsRelation others)
    (congrArg Prod.fst (ht.eat .comma others))
  rw [← hfollow] at hread
  unfold CypherQuery.ofTokens
  -- one clause after the other: each reader leaves the tokens of the next
  rw [hmatch.skipKeyword]
  show (readPaths _ _ >>= fun out => _) = _
  rw [hread]
  show (if (q.paths.foldl addPath .empty).edges.isEmpty then _ else _) = _
  split
  · rfl
  rw [hentities]
  show (readWhere _ _ >>= fun out => _) = _
  rw [readWhere_of_tokens hconditions hknown hreturn]
  show (skipKeyword "RETURN" _ >>= fun out => _) = _
  rw [hreturn.skipKeyword]
  show (readColumns _ _ >>= fun out => _) = _
  rw [readColumns_of_tokens hreturned hknown' (hlimit.eat_comma hending)]
  show (readLimit _ >>= fun out => _) = _
  rw [readLimit_of_tokens hlimit hending]
  show (readEnd _ >>= fun out => _) = _
  rw [readEnd_of_tokens hending]
  rfl

/-- The tokens of a query are read as that query. -/
theorem ofTokens_of_tokens {q : QueryPattern} {ts : List Token} (hq : q.Valid)
    (h : QueryTokens q ts) : CypherQuery.ofTokens ts = .ok q.compiled := by
  obtain ⟨-, hpaths, -, -, -, -, -⟩ := id h
  obtain ⟨p, hp⟩ := List.exists_mem_of_ne_nil _ hpaths.ne_nil
  have hedges : (q.paths.foldl addPath .empty).edges.isEmpty = false := by
    rw [List.isEmpty_eq_false_iff]
    exact fun hnil => hq.steps_ne_nil p hp (edges_foldl_addPath_eq_nil_iff.1 hnil p hp)
  rw [ofTokens_of_known hq.conditions_known hq.returned_known h, hedges, if_neg Bool.false_ne_true]

/-- Every text of a query is compiled to its motif: entities are the variables in the order
of first appearance, there is one required edge for each relationship in order, from the tail
of its arrow to the head, and a variable is constrained by its labels and then by its
conditions, both in order. The columns are the returned variables without repeats. -/
theorem parse_queryText {q : QueryPattern} {source : String} (hq : q.Valid)
    (h : QueryText q source.toList) :
    ∃ r, CypherQuery.parse source = .ok r ∧
      r.motif.entities = q.variableNames ∧
      r.motif.edges = q.paths.flatMap PathPattern.arrows ∧
      (∀ x, r.motif.constraintsOn x
        = q.nodes.filterMap (·.constraintOn? x) ++ q.conditions.filterMap (·.constraintOn? x)) ∧
      r.columns = q.returned.columns q.variableNames ∧
      r.limit = q.limit := by
  obtain ⟨ts, hts, hlayout⟩ := h
  refine ⟨q.compiled, ?_, ?_, ?_, fun x => ?_, rfl, rfl⟩
  · unfold CypherQuery.parse
    rw [tokens_of_layout hlayout]
    dsimp only
    rw [ofTokens_of_tokens hq hts]
  · exact (entities_foldl_addCondition _ _).trans (entities_foldl_addPath _)
  · exact (edges_foldl_addCondition _ _).trans (edges_foldl_addPath _ _)
  · exact (constraintsOn_foldl_addCondition _ _ x).trans
      (congrArg (· ++ _) (constraintsOn_foldl_addPath _ _ x))

/-- A variable may have the name of a keyword, a sign may follow `<` directly, and a comment
may stand between tokens. -/
theorem parse_queryText_of_left_arrow :
    ∃ r, CypherQuery.parse "match (a)<-[r:T]-(where)// back\nWHERE a.n<-3 Return where, a;" = .ok r ∧
      r.motif.entities = ["a", "where"] ∧
      r.motif.edges = [⟨"where", "a", true, [labelConstraint "T"]⟩] ∧
      r.motif.constraintsOn "a" = [⟨"n", .lt, .int (-3)⟩] ∧
      r.columns = ["where", "a"] ∧ r.limit = none := by
  have hspace : Filler [' '] := .blank rfl .nil
  have hcomment : Filler "// back\n".toList :=
    @Filler.comment " back".toList [] (by decide) .nil
  have hdone : Layout [] [] := .done (.filler .nil)
  have hreturn := ((((hdone.step (t := .mark .semicolon) .nil trivial rfl).step
    (t := .word "a") hspace rfl rfl).step (t := .mark .comma) .nil trivial rfl).step
    (t := .word "where") hspace rfl rfl).step (t := .word "Return") hspace rfl rfl
  have hnumber : "3" ≠ "" ∧ ∀ c ∈ "3".toList, isAsciiDigit c = true :=
    ⟨by decide, List.forall_mem_singleton.2 (by decide)⟩
  have hwhere := ((((((hreturn.step (t := .number "3") .nil hnumber rfl).step
    (t := .mark .arrowLeft) .nil trivial rfl).step (t := .word "n") .nil rfl rfl).step
    (t := .mark .dot) .nil trivial rfl).step (t := .word "a") hspace rfl rfl).step
    (t := .word "WHERE") hcomment rfl rfl)
  have hsource := ((hwhere.step (t := .mark .closeRound) .nil trivial rfl).step
    (t := .word "where") .nil rfl rfl).step (t := .mark .openRound) .nil trivial rfl
  have harrow := ((((((hsource.step (t := .mark .dash) .nil trivial rfl).step
    (t := .mark .closeSquare) .nil trivial rfl).step (t := .word "T") .nil rfl rfl).step
    (t := .mark .colon) .nil trivial rfl).step (t := .word "r") .nil rfl rfl).step
    (t := .mark .openSquare) .nil trivial rfl).step (t := .mark .arrowLeft) .nil trivial rfl
  have hlayout := (((harrow.step (t := .mark .closeRound) .nil trivial rfl).step
    (t := .word "a") .nil rfl rfl).step (t := .mark .openRound) hspace trivial rfl).step
    (t := .word "match") .nil rfl rfl
  let q : QueryPattern :=
    { paths := [⟨⟨"a", none⟩, [(⟨false, some "T"⟩, ⟨"where", none⟩)]⟩]
      conditions := [⟨"a", ⟨"n", .lt, .int (-3)⟩⟩]
      returned := .listed ["where", "a"]
      limit := none }
  have hq : q.Valid := by
    refine ⟨by decide, by decide, ?_⟩
    rintro _ ⟨⟩
    decide
  have hmatch : KeywordToken "MATCH" (.word "match") := .word rfl
  have hwhere : KeywordToken "WHERE" (.word "WHERE") := .word rfl
  have hreturn : KeywordToken "RETURN" (.word "Return") := .word rfl
  have hdigits : DigitsText 3 "3" := rfl
  have htokens := QueryTokens.intro (q := q) hmatch
    (.last (.intro (.cons (.left (.named "r" (some "T"))) .nil)))
    (.present hwhere (.last (.intro (.joined hdigits rfl)))) hreturn
    (.listed (.more rfl rfl (.last rfl))) .absent .semicolon
  obtain ⟨r, hparse, hentities, hedges, hconstraints, hcolumns, hlimit⟩ := @parse_queryText q
    "match (a)<-[r:T]-(where)// back\nWHERE a.n<-3 Return where, a;" hq ⟨_, htokens, hlayout⟩
  exact ⟨r, hparse, hentities, hedges, hconstraints "a", hcolumns, hlimit⟩

end MotifQuery.Cypher
