import MotifQuery.Proofs.Motif.RoundTrip

/-!
# `MotifQuery.Proofs.Motif.Quoted`: what stands between quotes

Quotes keep a comment from starting between them, and from nothing else: statements, arrows
and the constraints of an edge are cut apart wherever their marks stand. `Cuts` says which
texts hold such a mark, for each form of a statement.

A statement with one constraint, whose value stands in quotes, is read as that statement if
nothing cuts the value, and is refused if something does (`parse_quoted`); it is never read as
something else. The piece before a cut opens quotes that it does not close, and a text that
does so is no value (`readLiteral_open`) and ends no statement (`OneConstraint.parse_open`).
-/

set_option autoImplicit false

namespace MotifQuery.Motif

open Text Number

/-! ### Statements with one constraint -/

/-- The texts of an attribute and an operator, up to the value. -/
inductive TestText (name : String) (op : Comparison) : List Char → Prop where
  | intro {gap gap' sign : List Char} (hname : NameText name) (hgap : Gap gap)
      (hsign : SignText op sign) (hgap' : Gap gap') :
      TestText name op (name.toList ++ gap ++ (sign ++ gap'))

/-- A statement with one constraint as a function of the value, with its texts before and
behind the value. -/
inductive OneConstraint : (Json → Statement) → List Char → List Char → Prop where
  | vertex {entity name : String} {op : Comparison} {gap gap' test : List Char}
      (hentity : NameText entity) (hgap : Gap gap) (hgap' : Gap gap')
      (htest : TestText name op test) :
      OneConstraint (fun value => .vertex entity ⟨name, op, value⟩)
        (entity.toList ++ gap ++ '.' :: (gap' ++ test)) []
  | edge {source target name : String} {required : Bool} {op : Comparison}
      {gap gap' gap'' before test after : List Char} (hsource : NameText source) (hgap : Gap gap)
      (hgap' : Gap gap') (htarget : NameText target) (hgap'' : Gap gap'') (hbefore : Gap before)
      (htest : TestText name op test) (hafter : Gap after) :
      OneConstraint
        (fun value => .edge { source, target, required, constraints := [⟨name, op, value⟩] })
        (source.toList ++ gap
          ++ (arrow required ++ (gap' ++ target.toList ++ gap'' ++ '[' :: (before ++ test))))
        (after ++ [']'])

/-- The text holds a mark at which a statement of this form is cut. -/
def Cuts : Statement → List Char → Prop
  | .vertex _ _, cs => ';' ∈ cs ∨ ¬ PairFree '-' '>' cs ∨ ¬ PairFree '!' '>' cs
  | .edge e, cs => ';' ∈ cs ∨ ',' ∈ cs ∨ (e.required = false ∧ ¬ PairFree '-' '>' cs)

/-- The motif says what the statement says, and nothing else. -/
structure Says (m : Motif) (s : Statement) : Prop where
  entities : m.entities = s.entities.eraseDups
  edges : m.edges = s.edge?.toList
  constraintsOn : ∀ x, m.constraintsOn x = (s.constraintOn? x).toList

namespace TestText

variable {name : String} {op : Comparison} {test : List Char}

theorem inert (h : TestText name op test) : Inert test := by
  cases h with
  | intro hname hgap hsign hgap' =>
    exact (hname.plain.append hgap.plain).inert.append (hsign.inert.append hgap'.plain.inert)

theorem no_comma (h : TestText name op test) : ',' ∉ test := by
  cases h with
  | intro hname hgap hsign hgap' =>
    have hplain : isPlain ',' = false := by decide
    simp only [List.mem_append, not_or]
    exact ⟨⟨hname.plain.not_mem hplain, hgap.plain.not_mem hplain⟩, hsign.no_comma,
      hgap'.plain.not_mem hplain⟩

theorem sealed {tail : Char} (htail : IsTail tail) (h : TestText name op test) :
    Sealed tail test := by
  cases h with
  | intro hname hgap hsign hgap' =>
    exact ((hname.plain.append hgap.plain).sealed htail).append
      ((hsign.sealed htail).append (hgap'.plain.sealed htail))

theorem tight {ds : List Char} (h : TestText name op test) (hds : Tight ds) :
    Tight (test ++ ds) := by
  cases h with
  | @intro gap gap' sign hname hgap hsign hgap' =>
    rw [List.append_assoc name.toList]
    exact hname.tight.append _ hds

/-- What follows the operator is the value. -/
theorem parse_constraint {cs : List Char} (h : TestText name op test)
    (hcs : ∀ c ∈ cs.head?, c ≠ '=') :
    Constraint.parse (test ++ cs) = (readLiteral cs).map (Constraint.mk name op) := by
  cases h with
  | intro hname hgap hsign hgap' =>
    rw [List.append_assoc, List.append_assoc _ _ cs]
    exact Motif.parse_constraint hname hgap hsign hgap' hcs

theorem parseVertex {entity : String} {gap gap' cs : List Char} (h : TestText name op test)
    (hentity : NameText entity) (hgap : Gap gap) (hgap' : Gap gap')
    (hcs : ∀ c ∈ cs.head?, c ≠ '=') :
    Statement.parseVertex (entity.toList ++ gap ++ '.' :: (gap' ++ (test ++ cs)))
      = (readLiteral cs).map fun value => .vertex entity ⟨name, op, value⟩ := by
  cases h with
  | intro hname hgap₁ hsign hgap₂ =>
    rw [List.append_assoc _ _ cs, List.append_assoc _ _ cs]
    exact parseVertex_of_text hentity hgap hgap' hname hgap₁ hsign hgap₂ hcs

end TestText

/-! ### Open quotes -/

section Quote
variable {quote : Char} {cs : List Char}

theorem tight_quote (hquote : quote = '"' ∨ quote = '\'') : Tight [quote] :=
  tight_of_all (List.cons_ne_nil quote []) (by rcases hquote with rfl | rfl <;> decide)

theorem head_quote_ne (hquote : quote = '"' ∨ quote = '\'') (cs : List Char) :
    ∀ c ∈ (quote :: cs).head?, c ≠ '=' := by
  intro c hc
  rw [List.head?_cons, Option.mem_some_iff] at hc
  rcases hquote with rfl | rfl <;> exact hc ▸ by decide

/-- Before a quote stands no sign, and a quote is no digit. -/
theorem splitSign_quote (hquote : quote = '"' ∨ quote = '\'') (cs : List Char) :
    splitSign (quote :: cs) = (false, quote :: cs) ∧ isAsciiDigit quote = false := by
  rcases hquote with rfl | rfl <;> exact ⟨rfl, rfl⟩

theorem readDouble?_quote (hquote : quote = '"' ∨ quote = '\'') (cs : List Char) :
    readDouble? (quote :: cs) = none := by
  obtain ⟨hsign, hdigit⟩ := splitSign_quote hquote cs
  have hmagnitude : readMagnitude? (quote :: cs) = none := by
    rcases hquote with rfl | rfl <;> simp [readMagnitude?, lowerAscii, hdigit]
  simp [readDouble?, hsign, hmagnitude]

/-- What begins with a quote is neither a truth value nor a number. -/
theorem readBareValue?_quote (hquote : quote = '"' ∨ quote = '\'') (cs : List Char) :
    readBareValue? (quote :: cs) = none := by
  have hquotes : ∀ word ∈ ["true", "True", "false", "False"], quote ∉ word.toList := by
    rcases hquote with rfl | rfl <;> decide
  have hword : ∀ word ∈ ["true", "True", "false", "False"], String.ofList (quote :: cs) ≠ word := by
    rintro word hmem rfl
    refine hquotes _ hmem ?_
    rw [String.toList_ofList]
    exact List.mem_cons_self
  obtain ⟨hsign, hdigit⟩ := splitSign_quote hquote cs
  have hint : readInt64? (quote :: cs) = none := by
    simp [readInt64?, readInt?, hsign, readNat?, hdigit]
  rw [readBareValue?_of_ne hword, hint, readDouble?_quote hquote]
  rfl

/-- Quotes that are not closed hold no value. -/
theorem readLiteral_open (hquote : quote = '"' ∨ quote = '\'') (hfree : quote ∉ cs) :
    ∃ fault, readLiteral (quote :: cs) = .error fault := by
  have htrim : trim (quote :: cs) = quote :: trimEnd cs :=
    (tight_quote hquote).trim_append_end gap_nil.blank cs
  have hsame : unquote? quote (quote :: trimEnd cs) = none := by
    rw [unquote?, if_pos rfl]
    cases hend : dropEnding? [quote] (trimEnd cs) with
    | none => rfl
    | some rest =>
      -- a closing quote would be among the characters
      refine absurd ((trimEnd_isPrefix cs).mem ?_) hfree
      rw [dropEnding?_eq_some hend]
      simp
  have hother : ∀ q, q ≠ quote → unquote? q (quote :: trimEnd cs) = none := fun q hq =>
    unquote?_eq_none fun c hc => by
      rw [List.head?_cons, Option.mem_some_iff] at hc
      exact hc ▸ Ne.symm hq
  have hnone : ∀ q, unquote? q (quote :: trimEnd cs) = none := fun q => by
    by_cases hq : q = quote
    · rw [hq, hsame]
    · exact hother q hq
  refine ⟨.invalidValue (String.ofList (quote :: trimEnd cs)), ?_⟩
  unfold readLiteral
  dsimp only
  rw [htrim, hnone, hnone, readBareValue?_quote hquote]

end Quote

/-! ### Lists of constraints -/

/-- A single constraint in brackets. -/
theorem parseBlock_of_no_comma {body : List Char} (hcomma : ',' ∉ body) (hne : trim body ≠ []) :
    Statement.parseBlock body = (Constraint.parse (trim body)).map fun c => [c] := by
  unfold Statement.parseBlock
  rw [pieces_of_not_mem hcomma, List.map_singleton, List.filter_cons_of_pos (by simpa using hne),
    List.filter_nil, List.mapM_cons, List.mapM_nil]
  cases Constraint.parse (trim body) <;> rfl

/-- The first constraint in brackets is read first. -/
theorem parseBlock_error {body : List Char} {fault : Fault}
    (hne : trim (body.takeWhile (· != ',')) ≠ [])
    (h : Constraint.parse (trim (body.takeWhile (· != ','))) = .error fault) :
    Statement.parseBlock body = .error fault := by
  obtain ⟨rest, hrest⟩ := exists_pieces_eq ',' body
  unfold Statement.parseBlock
  rw [hrest, List.map_cons, List.filter_cons_of_pos (by simpa using hne), List.mapM_cons, h]
  rfl

/-- A list of constraints is refused if its first piece opens quotes without closing them. -/
theorem parseBlock_open {name : String} {op : Comparison} {quote : Char}
    {before test rest : List Char} (hbefore : Gap before) (htest : TestText name op test)
    (hquote : quote = '"' ∨ quote = '\'') (hfree : quote ∉ rest.takeWhile (· != ',')) :
    ∃ fault, Statement.parseBlock (before ++ (test ++ quote :: rest)) = .error fault := by
  have hpiece : (before ++ (test ++ quote :: rest)).takeWhile (· != ',')
      = before ++ ((test ++ [quote]) ++ rest.takeWhile (· != ',')) := by
    have hne : (quote != ',') = true := by rcases hquote with rfl | rfl <;> decide
    rw [takeWhile_ne_append (hbefore.plain.not_mem (by decide)),
      takeWhile_ne_append htest.no_comma, List.takeWhile_cons, if_pos hne, List.append_assoc,
      List.singleton_append]
  have htrim := (htest.tight (tight_quote hquote)).trim_append_end hbefore.blank
    (rest.takeWhile (· != ','))
  obtain ⟨fault, hfault⟩ := readLiteral_open hquote
    fun hmem => hfree ((trimEnd_isPrefix (rest.takeWhile (· != ','))).mem hmem)
  refine ⟨fault, parseBlock_error ?_ ?_⟩
  · rw [hpiece, htrim]
    simp
  · rw [hpiece, htrim, List.append_assoc, List.singleton_append,
      htest.parse_constraint (head_quote_ne hquote _), hfault]
    rfl

/-- A string in quotes may stand in brackets if it holds no comma. -/
theorem parseBlock_quoted {name : String} {op : Comparison} {quote : Char}
    {before test cs after : List Char} (hbefore : Gap before) (htest : TestText name op test)
    (hquote : quote = '"' ∨ quote = '\'') (hcomma : ',' ∉ cs) (hafter : Gap after) :
    Statement.parseBlock (before ++ (test ++ quote :: (cs ++ [quote])) ++ after)
      = .ok [⟨name, op, .str (String.ofList cs)⟩] := by
  have hmem : ',' ∉ before ++ (test ++ quote :: (cs ++ [quote])) ++ after := by
    have hne : quote ≠ ',' := by rcases hquote with rfl | rfl <;> decide
    simp only [List.mem_append, not_or]
    exact ⟨⟨hbefore.plain.not_mem (by decide), htest.no_comma, not_mem_quoted hne hcomma⟩,
      hafter.plain.not_mem (by decide)⟩
  have htight := htest.tight (tight_quoted hquote cs)
  have htrim := htight.trim_append_eq hbefore.blank hafter.blank
  rw [parseBlock_of_no_comma hmem (by rw [htrim]; exact htight.ne_nil), htrim,
    htest.parse_constraint (head_quote_ne hquote _), readLiteral_quoted hquote]
  rfl

/-! ### Arrows -/

/-- What stands before an arrow is no entity if it holds a mark that entities do not. -/
theorem parseEdge_error {mark : Char} {left : List Char} (hmark : continuesIdentifier mark = false)
    (hblank : isBlank mark = false) (hmem : mark ∈ left) (right : List Char) (required : Bool) :
    ∃ fault, Statement.parseEdge left right required = .error fault := by
  have hname : ¬ isIdentifier (trim left) = true := fun h => by
    have hname : NameText (String.ofList (trim left)) := by rwa [NameText, String.toList_ofList]
    have hmem' : mark ∈ (String.ofList (trim left)).toList := by
      rw [String.toList_ofList]
      exact mem_trim hmem hblank
    exact Bool.false_ne_true (hmark.symm.trans (continuesIdentifier_of_mem hname hmem'))
  refine ⟨.invalidIdentifier (String.ofList (trim left)), ?_⟩
  unfold Statement.parseEdge readIdentifier
  dsimp only
  rw [if_neg hname]
  rfl

/-- A text with a point before any arrow is refused if there is an arrow. -/
theorem parse_of_point {left : List Char} (hleft : Plain left) (behind : List Char) :
    (∃ fault, Statement.parse (left ++ '.' :: behind) = .error fault) ∨
      ∀ tail, IsTail tail → PairFree tail '>' (left ++ '.' :: behind) := by
  -- the point stands before the arrow, in what would be the source
  have hrefused : ∀ {tail before after} (required : Bool), IsTail tail →
      splitOnce? [tail, '>'] (left ++ '.' :: behind) = some (before, after) →
      ∃ fault, Statement.parseEdge before after required = .error fault := by
    intro tail before after required htail h
    have htail' : tail ∉ left := hleft.not_mem (by rcases htail with rfl | rfl <;> decide)
    have hpoint := mem_of_splitOnce?_pair h htail' (by rcases htail with rfl | rfl <;> decide)
    exact parseEdge_error (by decide) (by decide) hpoint after required
  unfold Statement.parse
  cases hdash : splitOnce? ['-', '>'] (left ++ '.' :: behind) with
  | some parts => exact .inl (hrefused true (.inl rfl) hdash)
  | none =>
    cases hbar : splitOnce? ['!', '>'] (left ++ '.' :: behind) with
    | some parts => exact .inl (hrefused false (.inr rfl) hbar)
    | none =>
      refine .inr ?_
      rintro tail (rfl | rfl)
      · exact pairFree_of_splitOnce?_eq_none hdash
      · exact pairFree_of_splitOnce?_eq_none hbar

/-- A forbidden edge is refused if the arrow of required edges stands behind its own. -/
theorem parse_of_bar {left : List Char} (hleft : Plain left) (right : List Char) :
    (∃ fault, Statement.parse (left ++ (arrow false ++ right)) = .error fault) ∨
      PairFree '-' '>' right := by
  unfold Statement.parse
  cases hdash : splitOnce? ['-', '>'] (left ++ (arrow false ++ right)) with
  | some parts =>
    have hbar : '!' ∈ parts.1 :=
      mem_of_splitOnce?_pair hdash (hleft.not_mem (by decide)) (by decide)
    exact .inl (parseEdge_error (by decide) (by decide) hbar parts.2 true)
  | none =>
    have hfree := pairFree_of_splitOnce?_eq_none hdash
    rw [← List.append_assoc] at hfree
    exact .inr (hfree.mono (List.suffix_append _ _).isInfix)

/-! ### Statements with a value in quotes -/

section Edge
variable {source target name : String} {op : Comparison} {quote : Char}
  {gap gap' gap'' before test rest : List Char}

/-- Brackets are refused if quotes stay open up to the end of the first constraint in them. -/
theorem parseEdge_open (hsource : NameText source) (hgap : Gap gap) (hgap' : Gap gap')
    (htarget : NameText target) (hgap'' : Gap gap'') (hbefore : Gap before)
    (htest : TestText name op test) (hquote : quote = '"' ∨ quote = '\'')
    (hfree : quote ∉ rest.takeWhile (· != ',')) (required : Bool) :
    ∃ fault, Statement.parseEdge (source.toList ++ gap)
      (gap' ++ target.toList ++ gap'' ++ '[' :: (before ++ (test ++ quote :: rest))) required
        = .error fault := by
  have htrim : trimEnd (before ++ (test ++ quote :: rest))
      = before ++ (test ++ quote :: trimEnd rest) := by
    have h := (tight_quote hquote).trimEnd_append (before ++ test) rest
    simpa using h
  rw [parseEdge_of_bracket hsource hgap hgap' htarget hgap'', htrim]
  cases hclose : dropEnding? [']'] (before ++ (test ++ quote :: trimEnd rest)) with
  | none => exact ⟨_, rfl⟩
  | some body =>
    -- the bracket that closes stands behind the quote, so the brackets hold the quote
    have hne : quote ≠ ']' := by rcases hquote with rfl | rfl <;> decide
    have hbody := dropEnding?_eq_some hclose
    rw [← List.append_assoc] at hbody
    obtain ⟨inner, hinner, rfl⟩ := exists_inner hne hbody
    obtain ⟨fault, hfault⟩ := parseBlock_open hbefore htest hquote fun hmem => hfree
      (mem_takeWhile_of_isPrefix (hinner.trans (trimEnd_isPrefix rest)) hmem)
    dsimp only
    rw [List.append_assoc, hfault]
    exact ⟨fault, rfl⟩

/-- An edge is refused if quotes stay open up to the end of its first constraint. -/
theorem parse_edge_open (hsource : NameText source) (hgap : Gap gap) (hgap' : Gap gap')
    (htarget : NameText target) (hgap'' : Gap gap'') (hbefore : Gap before)
    (htest : TestText name op test) (hquote : quote = '"' ∨ quote = '\'')
    (hfree : quote ∉ rest.takeWhile (· != ',')) (required : Bool) :
    ∃ fault, Statement.parse (source.toList ++ gap ++ (arrow required ++
        (gap' ++ target.toList ++ gap'' ++ '[' :: (before ++ (test ++ quote :: rest)))))
      = .error fault := by
  have hplain := hsource.plain.append hgap.plain
  have hedge := parseEdge_open hsource hgap hgap' htarget hgap'' hbefore htest hquote hfree required
  cases required with
  | true => rwa [@parse_of_arrow _ _ true hplain fun h => nomatch h]
  | false =>
    rcases parse_of_bar hplain (gap' ++ target.toList ++ gap'' ++
      '[' :: (before ++ (test ++ quote :: rest))) with herror | hright
    · exact herror
    · rwa [parse_of_arrow hplain fun _ => hright]

end Edge

namespace OneConstraint

variable {statement : Json → Statement} {front back cs : List Char} {quote : Char}

theorem inert_front (h : OneConstraint statement front back) : Inert front := by
  cases h with
  | vertex hentity hgap hgap' htest =>
    have hpoint : Inert ['.'] := Inert.of_all rfl
    exact (hentity.plain.append hgap.plain).inert.append
      (hpoint.append (hgap'.plain.inert.append htest.inert))
  | @edge _ _ _ required _ _ _ _ _ _ _ hsource hgap hgap' htarget hgap'' hbefore htest hafter =>
    have harrow : Inert (arrow required) := by
      refine Inert.of_all ?_
      cases required <;> rfl
    have hopen : Inert ['['] := Inert.of_all rfl
    exact (hsource.plain.append hgap.plain).inert.append (harrow.append
      (((hgap'.plain.append htarget.plain).append hgap''.plain).inert.append
        (hopen.append (hbefore.plain.inert.append htest.inert))))

theorem inert_back (h : OneConstraint statement front back) : Inert back := by
  cases h with
  | vertex => exact Inert.of_all rfl
  | edge _ _ _ _ _ _ _ hafter => exact hafter.plain.inert.append (Inert.of_all rfl)

theorem tight_front {ds : List Char} (h : OneConstraint statement front back) (hds : Tight ds) :
    Tight (front ++ ds) := by
  cases h with
  | @vertex entity _ _ _ _ _ hentity =>
    rw [List.append_assoc entity.toList]
    exact hentity.tight.append _ hds
  | @edge source _ _ _ _ _ _ _ _ _ _ hsource =>
    rw [List.append_assoc source.toList]
    exact hsource.tight.append _ hds

theorem tight_back {ds : List Char} (h : OneConstraint statement front back) (hds : Tight ds) :
    Tight (ds ++ back) := by
  cases h with
  | vertex => rwa [List.append_nil]
  | edge =>
    rw [← List.append_assoc]
    exact hds.append _ (tight_of_all (by decide) rfl)

/-- A statement that stays inside its quotes is refused. -/
theorem parse_open (h : OneConstraint statement front back) (hquote : quote = '"' ∨ quote = '\'')
    (hfree : quote ∉ cs) : ∃ fault, Statement.parse (front ++ quote :: cs) = .error fault := by
  cases h with
  | @vertex entity name op gap gap' test hentity hgap hgap' htest =>
    rw [List.append_assoc, List.cons_append, List.append_assoc gap']
    rcases parse_of_point (hentity.plain.append hgap.plain) (gap' ++ (test ++ quote :: cs))
      with herror | hpairs
    · exact herror
    · obtain ⟨fault, hfault⟩ := readLiteral_open hquote hfree
      rw [parse_of_no_arrow hpairs, htest.parseVertex hentity hgap hgap' (head_quote_ne hquote cs),
        hfault]
      exact ⟨fault, rfl⟩
  | @edge _ _ _ required _ _ _ _ _ _ _ hsource hgap hgap' htarget hgap'' hbefore htest =>
    have herror := parse_edge_open hsource hgap hgap' htarget hgap'' hbefore htest hquote
      (fun hmem => hfree ((List.takeWhile_sublist _).mem hmem)) required
    simpa using herror

/-- Of the marks between the quotes, those that cut the statement apart spoil it. -/
theorem parse_of_cuts (h : OneConstraint statement front back)
    (hquote : quote = '"' ∨ quote = '\'') (hfree : quote ∉ cs) (hsemicolon : ';' ∉ cs)
    {value : Json} (hcut : Cuts (statement value) cs) :
    ∃ fault, Statement.parse (front ++ quote :: (cs ++ [quote]) ++ back) = .error fault := by
  cases h with
  | @vertex entity name op gap gap' test hentity hgap hgap' htest =>
    have heq : entity.toList ++ gap ++ '.' :: (gap' ++ test) ++ quote :: (cs ++ [quote]) ++ []
        = entity.toList ++ gap ++ '.' :: (gap' ++ (test ++ quote :: (cs ++ [quote]))) := by simp
    rw [heq]
    refine (parse_of_point (hentity.plain.append hgap.plain) _).resolve_right fun hpairs => ?_
    have hpart : cs <:+: entity.toList ++ gap ++ '.' ::
        (gap' ++ (test ++ quote :: (cs ++ [quote]))) :=
      ⟨entity.toList ++ gap ++ '.' :: (gap' ++ (test ++ [quote])), [quote], by simp⟩
    rcases hcut with hmem | harrow | harrow
    · exact hsemicolon hmem
    · exact harrow ((hpairs '-' (.inl rfl)).mono hpart)
    · exact harrow ((hpairs '!' (.inr rfl)).mono hpart)
  | @edge source target name required op gap gap' gap'' before test after hsource hgap hgap' htarget
      hgap'' hbefore htest =>
    have heq : source.toList ++ gap
          ++ (arrow required ++ (gap' ++ target.toList ++ gap'' ++ '[' :: (before ++ test)))
          ++ quote :: (cs ++ [quote]) ++ (after ++ [']'])
        = source.toList ++ gap ++ (arrow required ++ (gap' ++ target.toList ++ gap''
          ++ '[' :: (before ++ (test ++ quote :: (cs ++ (quote :: (after ++ [']']))))))) := by simp
    rw [heq]
    rcases hcut with hmem | hcomma | ⟨hrequired, harrow⟩
    · exact absurd hmem hsemicolon
    -- the first constraint ends at the comma, where the quote is still open
    · refine parse_edge_open hsource hgap hgap' htarget hgap'' hbefore htest hquote ?_ required
      rw [takeWhile_append_of_mem hcomma (by decide)]
      exact fun hmem => hfree ((List.takeWhile_sublist _).mem hmem)
    · dsimp only at hrequired
      subst hrequired
      refine (parse_of_bar (hsource.plain.append hgap.plain) _).resolve_right fun hpairs => ?_
      exact harrow (hpairs.mono ⟨gap' ++ target.toList ++ gap'' ++ '[' ::
        (before ++ (test ++ [quote])), quote :: (after ++ [']']), by simp⟩)

/-- Marks that do not cut the statement apart are part of the value. -/
theorem parse_of_not_cuts (h : OneConstraint statement front back)
    (hquote : quote = '"' ∨ quote = '\'') {value : Json} (hcut : ¬ Cuts (statement value) cs) :
    Statement.parse (front ++ quote :: (cs ++ [quote]) ++ back)
      = .ok (statement (.str (String.ofList cs))) := by
  cases h with
  | @vertex entity name op gap gap' test hentity hgap hgap' htest =>
    have heq : entity.toList ++ gap ++ '.' :: (gap' ++ test) ++ quote :: (cs ++ [quote]) ++ []
        = entity.toList ++ gap ++ '.' :: (gap' ++ (test ++ quote :: (cs ++ [quote]))) := by simp
    simp only [Cuts, not_or, not_not] at hcut
    -- no arrow stands outside the quotes, and none between them
    have hpairs : ∀ tail, IsTail tail → PairFree tail '>'
        (entity.toList ++ gap ++ '.' :: (gap' ++ (test ++ quote :: (cs ++ [quote])))) := by
      intro tail htail
      have hquoted : Sealed tail (quote :: (cs ++ [quote])) := by
        refine sealed_quoted htail hquote ?_
        rcases htail with rfl | rfl
        · exact hcut.2.1
        · exact hcut.2.2
      exact (((hentity.plain.append hgap.plain).sealed htail).append
        ((htail.sealed_singleton (by decide) (by decide)).append
          ((hgap'.plain.sealed htail).append ((htest.sealed htail).append hquoted)))).free
    rw [heq, parse_of_no_arrow hpairs,
      htest.parseVertex hentity hgap hgap' (head_quote_ne hquote _), readLiteral_quoted hquote]
    rfl
  | @edge source target name required op gap gap' gap'' before test after hsource hgap hgap' htarget
      hgap'' hbefore htest hafter =>
    have heq : source.toList ++ gap
          ++ (arrow required ++ (gap' ++ target.toList ++ gap'' ++ '[' :: (before ++ test)))
          ++ quote :: (cs ++ [quote]) ++ (after ++ [']'])
        = source.toList ++ gap ++ (arrow required ++ (gap' ++ target.toList ++ gap''
          ++ '[' :: ((before ++ (test ++ quote :: (cs ++ [quote])) ++ after) ++ [']']))) := by simp
    simp only [Cuts, not_or, not_and, not_not] at hcut
    have hright : required = false → PairFree '-' '>' (gap' ++ target.toList ++ gap''
        ++ '[' :: ((before ++ (test ++ quote :: (cs ++ [quote])) ++ after) ++ [']'])) := by
      intro hrequired
      have hdash : IsTail '-' := .inl rfl
      have hquoted := sealed_quoted hdash hquote (hcut.2.2 hrequired)
      exact ((((hgap'.plain.append htarget.plain).append hgap''.plain).sealed hdash).append
        ((hdash.sealed_singleton (by decide : '[' ≠ '-') (by decide)).append
          ((((hbefore.plain.sealed hdash).append ((htest.sealed hdash).append hquoted)).append
            (hafter.plain.sealed hdash)).append
              (hdash.sealed_singleton (by decide : ']' ≠ '-') (by decide))))).free
    rw [heq, parse_of_arrow (hsource.plain.append hgap.plain) hright,
      parseEdge_of_bracket hsource hgap hgap' htarget hgap'', dropEnding?_bracket]
    dsimp only
    rw [parseBlock_quoted hbefore htest hquote hcut.2.1 hafter]
    rfl

end OneConstraint

/-! ### Lines -/

/-- A text without line feeds is one line. -/
theorem flatMap_statementsOn_line {line : List Char} (h : '\n' ∉ line) :
    (lines (String.ofList line).toList).flatMap statementsOn = statementsOn line := by
  rw [flatMap_lines rfl statementsOn_dropReturn, String.toList_ofList, pieces_of_not_mem h,
    List.flatMap_singleton]

/-- A line with one statement says what the statement says. -/
theorem says_of_parse {line : List Char} {s : Statement} (hline : '\n' ∉ line)
    (hon : statementsOn line = [line]) (h : Statement.parse line = .ok s) :
    ∃ m, parse (String.ofList line) = .ok m ∧ m.Says s := by
  refine ⟨ofStatements [s], parse_eq_ok_iff.2 ⟨[s], List.cons_ne_nil s [], ?_, rfl⟩, ?_, ?_, ?_⟩
  · rw [flatMap_statementsOn_line hline, hon, List.map_singleton, h, List.map_singleton]
  · rw [entities_ofStatements, List.flatMap_singleton]
  · rw [edges_ofStatements, List.filterMap_cons]
    cases s.edge? <;> rfl
  · intro x
    rw [constraintsOn_ofStatements, List.filterMap_cons]
    cases s.constraintOn? x <;> rfl

/-- A line is refused if one of its statements is. -/
theorem parse_error_of_mem {line cs : List Char} (hline : '\n' ∉ line)
    (hmem : cs ∈ statementsOn line) (h : ∃ fault, Statement.parse cs = .error fault) :
    ∃ failure, parse (String.ofList line) = .error failure := by
  cases hparse : parse (String.ofList line) with
  | error failure => exact ⟨failure, rfl⟩
  | ok m =>
    obtain ⟨ss, -, hss, -⟩ := parse_eq_ok_iff.1 hparse
    obtain ⟨fault, hfault⟩ := h
    rw [flatMap_statementsOn_line hline] at hss
    have hread := List.mem_map_of_mem (f := Statement.parse) hmem
    rw [hss, hfault] at hread
    obtain ⟨s, -, hs⟩ := List.mem_map.1 hread
    cases hs

/-! ### Motifs -/

section Parse
variable {statement : Json → Statement} {front back cs : List Char} {quote : Char}

theorem beforeComment_quoted_line (h : OneConstraint statement front back)
    (hquote : quote = '"' ∨ quote = '\'') (hfree : quote ∉ cs) :
    beforeComment none (front ++ quote :: (cs ++ [quote]) ++ back)
      = front ++ quote :: (cs ++ [quote]) ++ back := by
  have hclosed := (h.inert_front.closed.append (closed_quoted hquote hfree)).append
    h.inert_back.closed
  have heq := hclosed []
  rw [List.append_nil] at heq
  exact heq.trans (List.append_nil _)

/-- Without a semicolon the line is one statement. -/
theorem statementsOn_quoted (h : OneConstraint statement front back)
    (hquote : quote = '"' ∨ quote = '\'') (hfree : quote ∉ cs) (hsemicolon : ';' ∉ cs) :
    statementsOn (front ++ quote :: (cs ++ [quote]) ++ back)
      = [front ++ quote :: (cs ++ [quote]) ++ back] := by
  have hne : quote ≠ ';' := by rcases hquote with rfl | rfl <;> decide
  have hmem : ';' ∉ front ++ quote :: (cs ++ [quote]) ++ back := by
    rw [List.mem_append, List.mem_append, not_or, not_or]
    exact ⟨⟨h.inert_front.no_semicolon, not_mem_quoted hne hsemicolon⟩, h.inert_back.no_semicolon⟩
  have htight := h.tight_back (h.tight_front (tight_quoted hquote cs))
  unfold statementsOn
  rw [beforeComment_quoted_line h hquote hfree, pieces_of_not_mem hmem, List.map_singleton,
    htight.trim_eq, List.filter_cons_of_pos (by simp), List.filter_nil]

/-- A semicolon ends a statement that stays inside its quotes. -/
theorem exists_mem_statementsOn (h : OneConstraint statement front back)
    (hquote : quote = '"' ∨ quote = '\'') (hfree : quote ∉ cs) (hsemicolon : ';' ∈ cs) :
    ∃ first ∈ statementsOn (front ++ quote :: (cs ++ [quote]) ++ back),
      ∃ fault, Statement.parse first = .error fault := by
  obtain ⟨inner, behind, rfl, hinner⟩ := List.eq_append_cons_of_mem hsemicolon
  have hfree' : quote ∉ trimEnd inner := fun hmem =>
    hfree (List.mem_append_left _ ((trimEnd_isPrefix inner).mem hmem))
  have hpiece : ';' ∉ front ++ quote :: inner := by
    have hne : ';' ≠ quote := by rcases hquote with rfl | rfl <;> decide
    rw [List.mem_append, List.mem_cons, not_or, not_or]
    exact ⟨h.inert_front.no_semicolon, hne, hinner⟩
  have htrim : trim (front ++ quote :: inner) = front ++ quote :: trimEnd inner := by
    have heq := (h.tight_front (tight_quote hquote)).trim_append_end gap_nil.blank inner
    simpa using heq
  have hline : front ++ quote :: (inner ++ ';' :: behind ++ [quote]) ++ back
      = (front ++ quote :: inner) ++ ';' :: (behind ++ [quote] ++ back) := by simp
  refine ⟨front ++ quote :: trimEnd inner, ?_, h.parse_open hquote hfree'⟩
  unfold statementsOn
  rw [beforeComment_quoted_line h hquote hfree, hline, pieces_append hpiece, List.map_cons, htrim,
    List.filter_cons_of_pos (by simp)]
  exact List.mem_cons_self

/-- A statement with one constraint, whose value is a string in quotes of either kind, is read
as that statement, and as nothing else, when no mark between the quotes cuts it. A statement
that is cut is refused. -/
theorem parse_quoted (h : OneConstraint statement front back) (hquote : quote = '"' ∨ quote = '\'')
    (hfree : quote ∉ cs) (hnewline : '\n' ∉ cs) :
    (¬ Cuts (statement (.str (String.ofList cs))) cs →
      ∃ m, parse (String.ofList (front ++ quote :: (cs ++ [quote]) ++ back)) = .ok m ∧
        m.Says (statement (.str (String.ofList cs)))) ∧
    (Cuts (statement (.str (String.ofList cs))) cs →
      ∃ failure, parse (String.ofList (front ++ quote :: (cs ++ [quote]) ++ back))
        = .error failure) := by
  have hline : '\n' ∉ front ++ quote :: (cs ++ [quote]) ++ back := by
    have hne : quote ≠ '\n' := by rcases hquote with rfl | rfl <;> decide
    rw [List.mem_append, List.mem_append, not_or, not_or]
    exact ⟨⟨h.inert_front.no_newline, not_mem_quoted hne hnewline⟩, h.inert_back.no_newline⟩
  by_cases hsemicolon : ';' ∈ cs
  · obtain ⟨first, hmem, hfirst⟩ := exists_mem_statementsOn h hquote hfree hsemicolon
    refine ⟨fun hcut => absurd ?_ hcut, fun _ => parse_error_of_mem hline hmem hfirst⟩
    -- a semicolon cuts every form of a statement
    cases h with
    | vertex => exact .inl hsemicolon
    | edge => exact .inl hsemicolon
  · have hon := statementsOn_quoted h hquote hfree hsemicolon
    exact ⟨fun hcut => says_of_parse hline hon (h.parse_of_not_cuts hquote hcut),
      fun hcut => parse_error_of_mem hline (hon ▸ List.mem_cons_self)
        (h.parse_of_cuts hquote hfree hsemicolon hcut)⟩

end Parse

theorem gap_space : Gap [' '] :=
  fun _ hc => List.mem_singleton.1 hc ▸ ⟨rfl, by decide⟩

/-- Brackets, commas and comment signs do not cut a constraint on a vertex. -/
theorem parse_quoted_of_marks :
    ∃ m, parse "A.k != 'a[b], #c.'" = .ok m ∧
      m.Says (.vertex "A" ⟨"k", .ne, .str "a[b], #c."⟩) := by
  have htest := @TestText.intro "k" .ne [' '] [' '] _ rfl gap_space (.sign .ne) gap_space
  have hone := @OneConstraint.vertex "A" "k" .ne [] [] _ rfl gap_nil gap_nil htest
  have hcut : ¬ Cuts (.vertex "A" ⟨"k", .ne, .str "a[b], #c."⟩) "a[b], #c.".toList := by
    simp [Cuts, PairFree]
  exact (@parse_quoted _ _ _ "a[b], #c.".toList '\'' hone (.inr rfl) (by decide) (by decide)).1 hcut

/-- Not every string in quotes is one value: a semicolon ends the statement in it. -/
theorem not_forall_quoted :
    ¬ ∀ {statement : Json → Statement} {front back cs : List Char} {quote : Char},
      OneConstraint statement front back → (quote = '"' ∨ quote = '\'') →
      '"' ∉ cs → '\'' ∉ cs → '\n' ∉ cs →
      ∃ m, parse (String.ofList (front ++ quote :: (cs ++ [quote]) ++ back)) = .ok m ∧
        m.Says (statement (.str (String.ofList cs))) := by
  intro h
  have htest := @TestText.intro "k" .eq [' '] [' '] _ rfl gap_space .short gap_space
  have hone := @OneConstraint.vertex "A" "k" .eq [] [] _ rfl gap_nil gap_nil htest
  obtain ⟨m, hm, -⟩ := @h _ _ _ "x;y".toList '"' hone (.inl rfl) (by decide) (by decide) (by decide)
  have herror : (parse "A.k = \"x;y\"").toOption = none := by decide
  have heq := congrArg Except.toOption hm
  exact absurd (herror.symm.trans heq) (by simp [Except.toOption])

end MotifQuery.Motif
