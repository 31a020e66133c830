import MotifQuery.Proofs.Except
import MotifQuery.Proofs.Motif.Grammar
import MotifQuery.Proofs.Motif.Statements

/-!
# `MotifQuery.Proofs.Motif.RoundTrip`: reading what was written

One lemma for each reader of the motif language says that it reads every text of a thing as
that thing: `readLiteral_of_text`, `parse_constraintText`, `parse_statementText`.
`map_parse_statementsOn` lifts this to lines and `parse_motifText` to whole motifs.
-/

set_option autoImplicit false

namespace MotifQuery.Motif

open Text Number

/-! ### Identifiers and operators -/

theorem readIdentifier_of_text {name : String} (h : NameText name) {before after : List Char}
    (hbefore : Gap before) (hafter : Gap after) :
    readIdentifier (before ++ name.toList ++ after) = .ok name := by
  have hname : isIdentifier name.toList = true := h
  unfold readIdentifier
  dsimp only
  rw [h.tight.trim_append_eq hbefore.blank hafter.blank, if_pos hname, String.ofList_toList]

/-- An operator is read in full, as nothing that could belong to it follows. -/
theorem readOperator?_of_text {op : Comparison} {sign rest : List Char} (h : SignText op sign)
    (hrest : ∀ c ∈ rest.head?, c ≠ '=') : readOperator? (sign ++ rest) = some (op, rest) := by
  -- the operators of one character would go on with an equals sign
  have hshort : readOperator? ('=' :: rest) = some (.eq, rest) ∧
      readOperator? ('>' :: rest) = some (.gt, rest) ∧
      readOperator? ('<' :: rest) = some (.lt, rest) := by
    cases rest with
    | nil => exact ⟨rfl, rfl, rfl⟩
    | cons c cs =>
      have hne : c ≠ '=' := hrest c rfl
      simp [readOperator?, hne]
  cases h with
  | sign =>
    cases op with
    | eq => rfl
    | ne => rfl
    | gt => exact hshort.2.1
    | ge => rfl
    | lt => exact hshort.2.2
    | le => rfl
  | short => exact hshort.1

theorem SignText.exists_cons {op : Comparison} {sign : List Char} (h : SignText op sign) :
    ∃ c cs, sign = c :: cs ∧ isOperatorChar c = true := by
  cases h with
  | sign => cases op <;> exact ⟨_, _, rfl, rfl⟩
  | short => exact ⟨_, _, rfl, rfl⟩

/-- A comparison is cut at its operator. -/
theorem splitComparison_of_text {op : Comparison} {left sign rest : List Char}
    (hleft : ∀ c ∈ left, isOperatorChar c = false) (hsign : SignText op sign)
    (hrest : ∀ c ∈ rest.head?, c ≠ '=') :
    splitComparison (left ++ (sign ++ rest)) = .ok (trim left, op, trim rest) := by
  obtain ⟨c, cs, hcons, hc⟩ := hsign.exists_cons
  have hall : ∀ d ∈ left, (fun d => !isOperatorChar d) d = true := fun d hd => by
    show (!isOperatorChar d) = true
    rw [hleft d hd]
    rfl
  -- the first operator character is the first one of the sign
  have hdrop : (left ++ (sign ++ rest)).dropWhile (fun d => !isOperatorChar d) = sign ++ rest := by
    rw [List.dropWhile_append_of_pos hall, hcons, List.cons_append, List.dropWhile_cons, hc]
    rfl
  have htake : (left ++ (sign ++ rest)).takeWhile (fun d => !isOperatorChar d) = left := by
    rw [List.takeWhile_append_of_pos hall, hcons, List.cons_append, List.takeWhile_cons, hc]
    exact List.append_nil left
  unfold splitComparison
  rw [hdrop, htake]
  have hread := readOperator?_of_text hsign hrest
  rw [hcons, List.cons_append] at hread ⊢
  dsimp only
  rw [hread]

theorem isOperatorChar_of_plain {cs : List Char} (h : Plain cs) :
    ∀ c ∈ cs, isOperatorChar c = false := by
  intro c hmem
  cases hop : isOperatorChar c with
  | false => rfl
  | true =>
    have hplain := h c hmem
    simp only [isOperatorChar, Bool.or_eq_true, beq_iff_eq] at hop
    rcases hop with ((rfl | rfl) | rfl) | rfl <;> exact absurd hplain (by decide)

/-! ### Values -/

/-- A text that begins otherwise stands in no quotes. -/
theorem unquote?_eq_none {quote : Char} {cs : List Char} (h : ∀ c ∈ cs.head?, c ≠ quote) :
    unquote? quote cs = none := by
  cases cs with
  | nil => rfl
  | cons c cs =>
    rw [unquote?, if_neg (h c rfl)]

theorem unquote?_quoted (quote : Char) (cs : List Char) :
    unquote? quote (quote :: (cs ++ [quote])) = some cs := by
  rw [unquote?, if_pos rfl, dropEnding?_concat]

/-- What is no truth value is a whole number or another one. -/
theorem readBareValue?_of_ne {cs : List Char}
    (h : ∀ word ∈ ["true", "True", "false", "False"], String.ofList cs ≠ word) :
    readBareValue? cs = match readInt64? cs with
      | some n => some (.int n)
      | none => (readDouble? cs).map .ofDouble := by
  simp only [List.forall_mem_cons] at h
  obtain ⟨hlower, hupper, hlower', hupper', -⟩ := h
  unfold readBareValue?
  dsimp only
  exact (if_neg (not_or.2 ⟨hlower, hupper⟩)).trans (if_neg (not_or.2 ⟨hlower', hupper'⟩))

/-- A text of digits and signs is no word, so it is read as a number. -/
theorem readBareValue?_of_digits {cs : List Char}
    (hcs : ∀ c ∈ cs, c = '-' ∨ isAsciiDigit c = true) :
    readBareValue? cs = match readInt64? cs with
      | some n => some (.int n)
      | none => (readDouble? cs).map .ofDouble := by
  have hletter : ∀ word ∈ ["true", "True", "false", "False"], 'e' ∈ word.toList := by decide
  refine readBareValue?_of_ne ?_
  rintro word hmem rfl
  have he := hletter _ hmem
  rw [String.toList_ofList] at he
  rcases hcs 'e' he with heq | hdigit
  · exact absurd heq (by decide)
  · exact absurd hdigit (by decide)

/-- A text of digits and signs is not in quotes. -/
theorem readLiteral_of_bare {cs : List Char} (hne : cs ≠ [])
    (hcs : ∀ c ∈ cs, c = '-' ∨ isAsciiDigit c = true) {value : Json}
    (h : readBareValue? cs = some value) : readLiteral cs = .ok value := by
  have htight : Tight cs := by
    refine tight_of_all hne (List.all_eq_true.2 fun c hmem => ?_)
    rcases hcs c hmem with rfl | hdigit
    · rfl
    · rw [isBlank_eq_false_of_continues (by simp [continuesIdentifier, hdigit])]
      rfl
  -- a number begins with a digit or a minus sign, not with a quote
  have hhead : ∀ quote, quote ≠ '-' → isAsciiDigit quote = false → unquote? quote cs = none := by
    intro quote hdash hdigit
    refine unquote?_eq_none fun c hc heq => ?_
    rcases hcs c (List.mem_of_mem_head? hc) with hc | hc
    · exact hdash (heq ▸ hc)
    · rw [heq, hdigit] at hc
      cases hc
  unfold readLiteral
  dsimp only
  rw [htight.trim_eq, hhead '"' (by decide) (by decide), hhead '\'' (by decide) (by decide)]
  dsimp only
  rw [h]

/-- A whole number within 64 bits is read as such a literal. -/
theorem readLiteral_of_digits {cs : List Char} {n : Int} (hne : cs ≠ [])
    (hcs : ∀ c ∈ cs, c = '-' ∨ isAsciiDigit c = true) (h : readInt64? cs = some n) :
    readLiteral cs = .ok (.int n) := by
  refine readLiteral_of_bare hne hcs ?_
  rw [readBareValue?_of_digits hcs, h]

/-- What stands in quotes is the value, whatever it is. -/
theorem readLiteral_quoted {quote : Char} (hquote : quote = '"' ∨ quote = '\'')
    (cs : List Char) : readLiteral (quote :: (cs ++ [quote])) = .ok (.str (String.ofList cs)) := by
  unfold readLiteral
  dsimp only
  rw [(tight_quoted hquote cs).trim_eq]
  rcases hquote with rfl | rfl
  · rw [unquote?_quoted]
  -- double quotes are tried first
  · have hother : unquote? '"' ('\'' :: (cs ++ ['\''])) = none := by
      refine unquote?_eq_none fun c hc => ?_
      rw [List.head?_cons, Option.mem_some_iff] at hc
      subst hc
      decide
    rw [hother, unquote?_quoted]

theorem readLiteral_of_text {value : Json} {cs : List Char} (h : ValueText value cs) :
    readLiteral cs = .ok value := by
  cases h with
  | @int n h =>
    exact readLiteral_of_digits (intChars_ne_nil n) (fun c hc => mem_intChars hc)
      (readInt64?_intChars h)
  | yes h => rcases h with rfl | rfl <;> rfl
  | no h => rcases h with rfl | rfl <;> rfl
  | str hquote h => exact readLiteral_quoted hquote _

theorem readLiteral_trim (cs : List Char) : readLiteral (trim cs) = readLiteral cs := by
  unfold readLiteral
  rw [trim_trim]

/-- Blanks before a value are none of it. -/
theorem readLiteral_gap {gap : List Char} (hgap : Gap gap) (cs : List Char) :
    readLiteral (gap ++ cs) = readLiteral cs := by
  have htrim := trim_append hgap.blank cs gap_nil.blank
  rw [List.append_nil] at htrim
  rw [← readLiteral_trim, htrim, readLiteral_trim]

/-- Blanks before a value do not begin so that they could belong to the operator. -/
theorem head_gap_ne {gap cs : List Char} (hgap : Gap gap) (hcs : ∀ c ∈ cs.head?, c ≠ '=') :
    ∀ c ∈ (gap ++ cs).head?, c ≠ '=' := by
  intro c hc
  cases gap with
  | nil => exact hcs c hc
  | cons d gap =>
    rintro rfl
    exact hgap.plain.not_mem (by decide) (List.mem_of_mem_head? hc)

/-! ### Constraints -/

/-- What a constraint is depends on its value alone, once its attribute and its operator are
written. -/
theorem parse_constraint {name : String} {op : Comparison} {gap gap' sign cs : List Char}
    (hname : NameText name) (hgap : Gap gap) (hsign : SignText op sign) (hgap' : Gap gap')
    (hcs : ∀ c ∈ cs.head?, c ≠ '=') :
    Constraint.parse (name.toList ++ gap ++ (sign ++ (gap' ++ cs)))
      = (readLiteral cs).map (Constraint.mk name op) := by
  have hsplit := splitComparison_of_text
    (isOperatorChar_of_plain (hname.plain.append hgap.plain)) hsign (head_gap_ne hgap' hcs)
  have hleft := hname.tight.trim_append_eq gap_nil.blank hgap.blank
  rw [List.nil_append] at hleft
  rw [hleft] at hsplit
  have hread := readIdentifier_of_text hname gap_nil gap_nil
  rw [List.nil_append, List.append_nil] at hread
  unfold Constraint.parse
  rw [hsplit]
  show (readIdentifier name.toList >>= fun name => readLiteral (trim (gap' ++ cs)) >>= fun value =>
    pure (Constraint.mk name op value)) = _
  rw [hread, readLiteral_trim, readLiteral_gap hgap']
  cases readLiteral cs <;> rfl

theorem parse_constraintText {c : Constraint} {cs : List Char}
    (h : ConstraintText c cs) : Constraint.parse cs = .ok c := by
  cases h with
  | intro hname hgap hsign hgap' hvalue =>
    rw [parse_constraint hname hgap hsign hgap' hvalue.head_ne, readLiteral_of_text hvalue]
    rfl

/-! ### Statements -/

theorem parseBlock_of_text {constraints : List Constraint} {body : List Char}
    (h : Joined (Slot ConstraintText) ',' constraints body) :
    Statement.parseBlock body = .ok constraints := by
  refine mapM_eq_ok_iff.2 (h.map_pieces (by decide) ConstraintText.no_comma ConstraintText.tight ?_)
  exact parse_constraintText

/-- An edge is cut at its arrow; behind a barred arrow there must be no other one. -/
theorem parse_of_arrow {left right : List Char} {required : Bool} (hleft : Plain left)
    (hright : required = false → PairFree '-' '>' right) :
    Statement.parse (left ++ (arrow required ++ right))
      = Statement.parseEdge left right required := by
  have hhead : '>' ∉ left := hleft.not_mem (by decide)
  unfold Statement.parse
  cases required with
  | true =>
    have hsplit : splitOnce? ['-', '>'] (left ++ (arrow true ++ right)) = some (left, right) :=
      splitOnce?_pair (by decide) hhead right
    rw [hsplit]
  | false =>
    have hbar : Sealed '-' (left ++ ['!', '>']) :=
      (hleft.sealed (.inl rfl)).append (Sealed.of_not_mem (by decide))
    -- the arrow of required edges is looked for first and must stand nowhere
    have hnone : splitOnce? ['-', '>'] (left ++ (arrow false ++ right)) = none := by
      rw [← List.append_assoc]
      exact splitOnce?_pair_eq_none (hbar.free.append_of_last (hright rfl) hbar.last)
    have hsplit : splitOnce? ['!', '>'] (left ++ (arrow false ++ right)) = some (left, right) :=
      splitOnce?_pair (by decide) hhead right
    rw [hnone, hsplit]

theorem parseEdge_of_text {source target : String} {gap gap' : List Char}
    (hsource : NameText source) (hgap : Gap gap) (hgap' : Gap gap') (htarget : NameText target)
    (required : Bool) :
    Statement.parseEdge (source.toList ++ gap) (gap' ++ target.toList) required
      = .ok (.edge { source, target, required }) := by
  have hleft := readIdentifier_of_text hsource gap_nil hgap
  have hright := readIdentifier_of_text htarget hgap' gap_nil
  rw [List.nil_append] at hleft
  rw [List.append_nil] at hright
  -- without a bracket there is no list of constraints
  have hnone : splitOnce? ['['] (gap' ++ target.toList) = none :=
    splitOnce?_char_eq_none ((hgap'.plain.append htarget.plain).not_mem (by decide))
  unfold Statement.parseEdge
  rw [hleft, hnone]
  show (readIdentifier (gap' ++ target.toList) >>= fun target =>
    pure (Statement.edge { source, target, required })) = _
  rw [hright]
  rfl

/-- What an edge with a bracket is depends on what stands in the bracket. -/
theorem parseEdge_of_bracket {source target : String} {gap gap' gap'' : List Char}
    (hsource : NameText source) (hgap : Gap gap) (hgap' : Gap gap') (htarget : NameText target)
    (hgap'' : Gap gap'') (required : Bool) (rest : List Char) :
    Statement.parseEdge (source.toList ++ gap) (gap' ++ target.toList ++ gap'' ++ '[' :: rest)
        required
      = match dropEnding? [']'] (trimEnd rest) with
        | none => .error .unclosedBlock
        | some body => (Statement.parseBlock body).map fun constraints =>
            .edge { source, target, required, constraints } := by
  have hleft := readIdentifier_of_text hsource gap_nil hgap
  rw [List.nil_append] at hleft
  have hbefore : '[' ∉ gap' ++ target.toList ++ gap'' :=
    ((hgap'.plain.append htarget.plain).append hgap''.plain).not_mem (by decide)
  unfold Statement.parseEdge
  rw [hleft, splitOnce?_char hbefore]
  cases hclose : dropEnding? [']'] (trimEnd rest) with
  | none => simp only [hclose]; rfl
  | some body =>
    simp only [hclose, readIdentifier_of_text htarget hgap' hgap'']
    cases Statement.parseBlock body <;> rfl

theorem dropEnding?_bracket (body : List Char) :
    dropEnding? [']'] (trimEnd (body ++ [']'])) = some body := by
  have hbracket : Tight [']'] := tight_of_all (by decide) rfl
  rw [hbracket.trimEnd_eq, dropEnding?_concat]

/-- What a constraint on a vertex is depends on its value alone, once the rest is written. -/
theorem parseVertex_of_text {entity name : String} {op : Comparison}
    {gap gap' gap₁ gap₂ sign cs : List Char} (hentity : NameText entity) (hgap : Gap gap)
    (hgap' : Gap gap') (hname : NameText name) (hgap₁ : Gap gap₁) (hsign : SignText op sign)
    (hgap₂ : Gap gap₂) (hcs : ∀ c ∈ cs.head?, c ≠ '=') :
    Statement.parseVertex (entity.toList ++ gap ++ '.' ::
        (gap' ++ (name.toList ++ gap₁ ++ (sign ++ (gap₂ ++ cs)))))
      = (readLiteral cs).map fun value => .vertex entity ⟨name, op, value⟩ := by
  have hpoint : ∀ c ∈ ['.'], isOperatorChar c = false := fun c hc =>
    List.mem_singleton.1 hc ▸ rfl
  have hop : ∀ c ∈ entity.toList ++ gap ++ (['.'] ++ (gap' ++ (name.toList ++ gap₁))),
      isOperatorChar c = false :=
    List.forall_mem_append.2 ⟨isOperatorChar_of_plain (hentity.plain.append hgap.plain),
      List.forall_mem_append.2 ⟨hpoint, isOperatorChar_of_plain
        (hgap'.plain.append (hname.plain.append hgap₁.plain))⟩⟩
  have hsplit := splitComparison_of_text hop hsign (head_gap_ne hgap₂ hcs)
  -- the name of the attribute ends what stands before the operator
  have htrim : trim (entity.toList ++ gap ++ (['.'] ++ (gap' ++ (name.toList ++ gap₁))))
      = entity.toList ++ gap ++ '.' :: (gap' ++ name.toList) := by
    have htight := hentity.tight.append (gap ++ '.' :: gap') hname.tight
    have heq := htight.trim_append_eq gap_nil.blank hgap₁.blank
    simpa using heq
  have htext : entity.toList ++ gap ++ '.' ::
        (gap' ++ (name.toList ++ gap₁ ++ (sign ++ (gap₂ ++ cs))))
      = entity.toList ++ gap ++ (['.'] ++ (gap' ++ (name.toList ++ gap₁)))
        ++ (sign ++ (gap₂ ++ cs)) := by simp
  rw [htrim] at hsplit
  have hleft := readIdentifier_of_text hentity gap_nil hgap
  have hright := readIdentifier_of_text hname hgap' gap_nil
  rw [List.nil_append] at hleft
  rw [List.append_nil] at hright
  have hbefore : '.' ∉ entity.toList ++ gap :=
    (hentity.plain.append hgap.plain).not_mem (by decide)
  have hcut : splitOnce? ['.'] (entity.toList ++ gap ++ '.' :: (gap' ++ name.toList))
      = some (entity.toList ++ gap, gap' ++ name.toList) := splitOnce?_char hbefore _
  unfold Statement.parseVertex
  rw [htext, hsplit]
  show Except.bind (.ok _) _ = _
  simp only [Except.bind, hcut, hleft, hright, readLiteral_trim, readLiteral_gap hgap₂]
  cases readLiteral cs <;> rfl

/-- A statement without arrows is a constraint on a vertex. -/
theorem parse_of_no_arrow {cs : List Char} (h : ∀ tail, IsTail tail → PairFree tail '>' cs) :
    Statement.parse cs = Statement.parseVertex cs := by
  unfold Statement.parse
  rw [splitOnce?_pair_eq_none (h '-' (.inl rfl)), splitOnce?_pair_eq_none (h '!' (.inr rfl))]

theorem IsTail.sealed_singleton {tail c : Char} (htail : IsTail tail) (hdash : c ≠ '-')
    (hbar : c ≠ '!') : Sealed tail [c] := by
  refine Sealed.of_not_mem ?_
  rcases htail with rfl | rfl
  · simpa using Ne.symm hdash
  · simpa using Ne.symm hbar

/-- Every text of a statement is read as that statement. -/
theorem parse_statementText {s : Statement} {cs : List Char} (h : StatementText s cs) :
    Statement.parse cs = .ok s := by
  have hdash : IsTail '-' := .inl rfl
  cases h with
  | edge hsource hgap hgap' htarget =>
    rw [parse_of_arrow (hsource.plain.append hgap.plain)
      fun _ => ((hgap'.plain.append htarget.plain).sealed hdash).free]
    exact parseEdge_of_text hsource hgap hgap' htarget _
  | block hsource hgap hgap' htarget hgap'' hbody =>
    have hbracket := (hdash.sealed_singleton (by decide : '[' ≠ '-') (by decide)).append
      ((sealed_block hdash hbody).append
        (hdash.sealed_singleton (by decide : ']' ≠ '-') (by decide)))
    have hright := (((hgap'.plain.append htarget.plain).append hgap''.plain).sealed hdash).append
      hbracket
    rw [List.singleton_append] at hright
    rw [parse_of_arrow (hsource.plain.append hgap.plain) fun _ => hright.free,
      parseEdge_of_bracket hsource hgap hgap' htarget hgap'', dropEnding?_bracket]
    dsimp only
    rw [parseBlock_of_text hbody]
    rfl
  | @vertex entity c gap gap' cs hentity hgap hgap' hconstraint =>
    -- a constraint on a vertex holds neither arrow, whatever its value
    have hfree : ∀ tail, IsTail tail →
        PairFree tail '>' (entity.toList ++ gap ++ '.' :: (gap' ++ cs)) := fun tail htail =>
      (((hentity.plain.append hgap.plain).sealed htail).append
        ((htail.sealed_singleton (by decide) (by decide)).append
          ((hgap'.plain.sealed htail).append (hconstraint.sealed htail)))).free
    rw [parse_of_no_arrow hfree]
    cases hconstraint with
    | intro hname hgap₁ hsign hgap₂ hvalue =>
      rw [parseVertex_of_text hentity hgap hgap' hname hgap₁ hsign hgap₂ hvalue.head_ne,
        readLiteral_of_text hvalue]
      rfl

/-! ### Lines -/

/-- A further character goes to a comment or stays where it is. -/
theorem beforeComment_concat {c : Char} (h : c ≠ '#') (quote : Option Char) (cs : List Char) :
    beforeComment quote (cs ++ [c]) = beforeComment quote cs ∨
      beforeComment quote (cs ++ [c]) = beforeComment quote cs ++ [c] := by
  -- over the text, since the quote that is open changes on the way
  induction cs generalizing quote with
  | nil =>
    refine .inr ?_
    cases quote with
    | none =>
      show beforeComment none [c] = [c]
      rw [beforeComment, if_neg h]
      cases (if c = '"' ∨ c = '\'' then some c else none) <;> rfl
    | some quote =>
      show beforeComment (some quote) [c] = [c]
      rw [beforeComment]
      cases (if c = quote then none else some quote) <;> rfl
  | cons d cs ih =>
    cases quote with
    | none =>
      rw [List.cons_append, beforeComment, beforeComment]
      split
      · exact .inl rfl
      · rcases ih (if d = '"' ∨ d = '\'' then some d else none) with heq | heq
        · exact .inl (by rw [heq])
        · exact .inr (by rw [heq]; rfl)
    | some quote =>
      rw [List.cons_append, beforeComment, beforeComment]
      rcases ih (if d = quote then none else some quote) with heq | heq
      · exact .inl (by rw [heq])
      · exact .inr (by rw [heq]; rfl)

/-- The carriage return of a line end belongs to no statement. -/
theorem statementsOn_dropReturn (line : List Char) :
    statementsOn (dropReturn line) = statementsOn line := by
  rcases dropReturn_eq line with heq | heq
  · rw [heq]
  · rw [heq]
    generalize dropReturn line = cs
    unfold statementsOn
    have hdrop : dropReturn (cs ++ ['\r']) = cs := by rw [dropReturn, dropEnding?_concat]; rfl
    rw [hdrop]
    rcases beforeComment_concat (by decide : '\r' ≠ '#') none cs with hcut | hcut
    · rw [hcut]
    · rw [hcut]
      -- the carriage return ends the last piece, where it is trimmed
      obtain ⟨init, last, hpieces, hconcat⟩ :=
        pieces_concat (by decide : '\r' ≠ ';') (beforeComment none cs)
      have hreturn : Blank ['\r'] := fun c hc => List.mem_singleton.1 hc ▸ rfl
      have htrim : trim (last ++ ['\r']) = trim last := by
        have h := trim_append gap_nil.blank last hreturn
        rwa [List.nil_append] at h
      rw [hpieces, hconcat, List.map_append, List.map_append, List.map_singleton,
        List.map_singleton, htrim]

theorem closed_statements {ss : List Statement} {cs : List Char}
    (h : Joined (Slot StatementText) ';' ss cs) : Closed cs := by
  refine h.of_closed Closed.append (fun rest => ?_) fun hslot =>
    (hslot.of_closed Inert.append (fun hgap => hgap.plain.inert) StatementText.inert).closed
  show beforeComment none (';' :: rest) = ';' :: beforeComment none rest
  rw [beforeComment, if_neg (by decide), if_neg (by decide)]

/-- Every text of a line is read as its statements. -/
theorem map_parse_statementsOn {ss : List Statement} {line : List Char} (h : LineText ss line) :
    (statementsOn line).map Statement.parse = ss.map .ok := by
  -- a comment is cut off before the statements are parted
  have hbody : ∀ {cs}, Joined (Slot StatementText) ';' ss cs →
      beforeComment none line = cs → (statementsOn line).map Statement.parse = ss.map .ok := by
    intro cs hjoined hcut
    have hsep : ∀ {s : Statement} {cs}, StatementText s cs → ';' ∉ cs := fun hs =>
      hs.inert.no_semicolon
    unfold statementsOn
    rw [hcut]
    exact hjoined.map_pieces (by decide) hsep StatementText.tight parse_statementText
  cases h with
  | plain h =>
    refine hbody h ?_
    have hclosed := closed_statements h []
    rw [List.append_nil] at hclosed
    exact hclosed.trans (List.append_nil _)
  | comment h hnote =>
    refine hbody h ((closed_statements h _).trans ?_)
    rw [beforeComment, if_pos rfl, List.append_nil]

/-! ### Motifs -/

/-- Every text of a list of statements is read as the motif of these statements: entities
stand in the order of first mention, edges and the constraints on an entity in the order of
the statements. -/
theorem parse_motifText {ss : List Statement} {source : String} (hne : ss ≠ [])
    (h : MotifText ss source.toList) :
    ∃ m, parse source = .ok m ∧
      m.entities = (ss.flatMap Statement.entities).eraseDups ∧
      m.edges = ss.filterMap Statement.edge? ∧
      ∀ x, m.constraintsOn x = ss.filterMap (Statement.constraintOn? x) := by
  refine ⟨ofStatements ss, parse_eq_ok_iff.2 ⟨ss, hne, ?_, rfl⟩, entities_ofStatements ss,
    edges_ofStatements ss, constraintsOn_ofStatements ss⟩
  rw [flatMap_lines rfl statementsOn_dropReturn, List.map_flatMap]
  exact h.flatMap_pieces LineText.no_newline map_parse_statementsOn

/-- A comment sign in quotes is part of the value. -/
theorem parse_motifText_of_lines :
    ∃ m, parse "A -> B [w >= -2] # far\nB !> A; A.kind = 'x#y'" = .ok m ∧
      m.entities = ["A", "B"] ∧
      m.edges = [⟨"A", "B", true, [⟨"w", .ge, .int (-2)⟩]⟩, ⟨"B", "A", false, []⟩] ∧
      m.constraintsOn "A" = [⟨"kind", .eq, .str "x#y"⟩] := by
  have hgap : Gap [' '] := fun c hc => List.mem_singleton.1 hc ▸ ⟨rfl, by decide⟩
  have hstring : StringText ['x', '#', 'y'] :=
    ⟨by decide, by decide, by decide, by decide, by decide,
      PairFree.of_not_mem_right (by decide), PairFree.of_not_mem_right (by decide)⟩
  have hw := @ConstraintText.intro "w" .ge (.int (-2)) [' '] [' '] _ _ rfl hgap (.sign .ge) hgap
    (.int (by decide))
  have hkind := @ConstraintText.intro "kind" .eq (.str "x#y") [' '] [' '] _ _ rfl hgap .short hgap
    (.str (.inr rfl) hstring)
  have hfirst := @StatementText.block "A" "B" true _ [' '] [' '] [' '] _ rfl hgap hgap rfl hgap
    (.last (.item gap_nil hw gap_nil))
  have hsecond := @StatementText.edge "B" "A" false [' '] [' '] rfl hgap hgap rfl
  have hthird := @StatementText.vertex "A" _ [] [] _ rfl gap_nil gap_nil hkind
  have htext : MotifText _ _ := Joined.more
    (LineText.comment (.last (.item gap_nil hfirst hgap)) (by decide : '\n' ∉ " far".toList))
    (.last (.plain (.more (.item gap_nil hsecond gap_nil) (.last (.item hgap hthird gap_nil)))))
  obtain ⟨m, hparse, hentities, hedges, hconstraints⟩ := @parse_motifText _
    "A -> B [w >= -2] # far\nB !> A; A.kind = 'x#y'" (List.cons_ne_nil _ _) htext
  exact ⟨m, hparse, hentities, hedges, hconstraints "A"⟩

end MotifQuery.Motif
