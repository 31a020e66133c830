import MotifQuery.Motif.Parser
import MotifQuery.Proofs.Number.Integer
import MotifQuery.Proofs.Text.Split
import MotifQuery.Proofs.Text.Trim

/-!
# `MotifQuery.Proofs.Motif.Grammar`: the texts of the motif language

The language as relations between what is meant and how it may be written. Between tokens
any blanks may stand, `==` has the short form `=`, a string has quotes of either kind, edge
constraints and statements are listed with blank pieces among them, and a comment may end a
line. `MotifText` relates a list of statements to the texts that write it.

The rest of the module collects what the characters of such texts guarantee to the
splitting that the parser does: `Inert` for the level of lines, `Sealed` for arrows,
`Tight` for trimming.
-/

set_option autoImplicit false

namespace MotifQuery.Motif

open Text Number

/-! ### Texts -/

/-- Blanks within a line. -/
def Gap (cs : List Char) : Prop :=
  ∀ c ∈ cs, isBlank c = true ∧ c ≠ '\n'

/-- What a string value may hold; a comment sign is no exception. -/
structure StringText (cs : List Char) : Prop where
  no_double_quote : '"' ∉ cs
  no_single_quote : '\'' ∉ cs
  no_newline : '\n' ∉ cs
  no_semicolon : ';' ∉ cs
  no_comma : ',' ∉ cs
  no_arrow : PairFree '-' '>' cs
  no_barred_arrow : PairFree '!' '>' cs

/-- The texts of a value. -/
inductive ValueText : Json → List Char → Prop where
  | int {n : Int} (h : fitsInt64 n = true) : ValueText (.int n) (intChars n)
  | yes {word : String} (h : word = "true" ∨ word = "True") : ValueText (.bool true) word.toList
  | no {word : String} (h : word = "false" ∨ word = "False") :
      ValueText (.bool false) word.toList
  | str {quote : Char} {cs : List Char} (hquote : quote = '"' ∨ quote = '\'')
      (h : StringText cs) : ValueText (.str (String.ofList cs)) (quote :: (cs ++ [quote]))

/-- The texts of an operator. -/
inductive SignText : Comparison → List Char → Prop where
  | sign (op : Comparison) : SignText op op.sign.toList
  | short : SignText .eq ['=']

/-- The texts of an identifier. -/
def NameText (name : String) : Prop :=
  isIdentifier name.toList = true

/-- The texts of a constraint. -/
inductive ConstraintText : Constraint → List Char → Prop where
  | intro {name : String} {op : Comparison} {value : Json} {gap gap' sign cs : List Char}
      (hname : NameText name) (hgap : Gap gap) (hsign : SignText op sign) (hgap' : Gap gap')
      (hvalue : ValueText value cs) :
      ConstraintText ⟨name, op, value⟩ (name.toList ++ gap ++ (sign ++ (gap' ++ cs)))

/-- A place in a list, which may be left blank. -/
inductive Slot {α : Type} (Text : α → List Char → Prop) : List α → List Char → Prop where
  | blank {gap : List Char} (h : Gap gap) : Slot Text [] gap
  | item {x : α} {before cs after : List Char} (hbefore : Gap before) (h : Text x cs)
      (hafter : Gap after) : Slot Text [x] (before ++ cs ++ after)

/-- Pieces with a separator between them. -/
inductive Joined {α : Type} (Piece : List α → List Char → Prop) (sep : Char) :
    List α → List Char → Prop where
  | last {xs : List α} {cs : List Char} (h : Piece xs cs) : Joined Piece sep xs cs
  | more {xs ys : List α} {cs rest : List Char} (h : Piece xs cs)
      (hrest : Joined Piece sep ys rest) : Joined Piece sep (xs ++ ys) (cs ++ sep :: rest)

/-- The arrow of a required or a forbidden edge. -/
def arrow : Bool → List Char
  | true => ['-', '>']
  | false => ['!', '>']

/-- The texts of a statement. -/
inductive StatementText : Statement → List Char → Prop where
  | edge {source target : String} {required : Bool} {gap gap' : List Char}
      (hsource : NameText source) (hgap : Gap gap) (hgap' : Gap gap')
      (htarget : NameText target) :
      StatementText (.edge { source, target, required })
        (source.toList ++ gap ++ (arrow required ++ (gap' ++ target.toList)))
  | block {source target : String} {required : Bool} {constraints : List Constraint}
      {gap gap' gap'' body : List Char} (hsource : NameText source) (hgap : Gap gap)
      (hgap' : Gap gap') (htarget : NameText target) (hgap'' : Gap gap'')
      (hbody : Joined (Slot ConstraintText) ',' constraints body) :
      StatementText (.edge { source, target, required, constraints })
        (source.toList ++ gap
          ++ (arrow required ++ (gap' ++ target.toList ++ gap'' ++ '[' :: (body ++ [']']))))
  | vertex {entity : String} {c : Constraint} {gap gap' cs : List Char}
      (hentity : NameText entity) (hgap : Gap gap) (hgap' : Gap gap')
      (hconstraint : ConstraintText c cs) :
      StatementText (.vertex entity c) (entity.toList ++ gap ++ '.' :: (gap' ++ cs))

/-- The texts of a line, without or with a comment. -/
inductive LineText : List Statement → List Char → Prop where
  | plain {ss : List Statement} {cs : List Char} (h : Joined (Slot StatementText) ';' ss cs) :
      LineText ss cs
  | comment {ss : List Statement} {cs note : List Char}
      (h : Joined (Slot StatementText) ';' ss cs) (hnote : '\n' ∉ note) :
      LineText ss (cs ++ '#' :: note)

/-- The texts of a list of statements. -/
def MotifText (ss : List Statement) (cs : List Char) : Prop :=
  Joined LineText '\n' ss cs

/-! ### Characters -/

/-- The characters of identifiers and of blanks within a line. -/
def isPlain (c : Char) : Bool :=
  continuesIdentifier c || (isBlank c && c != '\n')

/-- The text consists of identifiers and blanks. -/
def Plain (cs : List Char) : Prop :=
  ∀ c ∈ cs, isPlain c = true

theorem Plain.not_mem {cs : List Char} (h : Plain cs) {c : Char} (hc : isPlain c = false) :
    c ∉ cs := by
  intro hmem
  rw [h c hmem] at hc
  cases hc

theorem Plain.append {cs ds : List Char} (hc : Plain cs) (hd : Plain ds) : Plain (cs ++ ds) :=
  List.forall_mem_append.2 ⟨hc, hd⟩

theorem Gap.plain {cs : List Char} (h : Gap cs) : Plain cs := by
  intro c hmem
  obtain ⟨hblank, hne⟩ := h c hmem
  simp [isPlain, hblank, hne]

theorem Gap.blank {cs : List Char} (h : Gap cs) : Blank cs :=
  fun c hmem => (h c hmem).1

theorem continuesIdentifier_of_mem {name : String} (h : NameText name) {c : Char}
    (hmem : c ∈ name.toList) : continuesIdentifier c = true := by
  unfold NameText at h
  cases hcs : name.toList with
  | nil =>
    rw [hcs] at hmem
    cases hmem
  | cons d ds =>
    rw [hcs, isIdentifier, Bool.and_eq_true, List.all_eq_true] at h
    rw [hcs] at hmem
    rcases List.mem_cons.1 hmem with rfl | hmem
    · have hstart := h.1
      simp only [startsIdentifier, Bool.or_eq_true] at hstart
      rcases hstart with hletter | hscore
      · simp [continuesIdentifier, hletter]
      · simp [continuesIdentifier, hscore]
    · exact h.2 c hmem

theorem NameText.plain {name : String} (h : NameText name) : Plain name.toList := by
  intro c hmem
  rw [isPlain, continuesIdentifier_of_mem h hmem, Bool.true_or]

theorem NameText.ne_nil {name : String} (h : NameText name) : name.toList ≠ [] := by
  intro hnil
  rw [NameText, hnil] at h
  cases h

/-- No character of an identifier is blank. -/
theorem isBlank_eq_false_of_continues {c : Char} (h : continuesIdentifier c = true) :
    isBlank c = false := by
  have hle : ∀ a b : Char, a ≤ b → a.toNat ≤ b.toNat := fun a b hab => hab
  have hn : (48 ≤ c.toNat ∧ c.toNat ≤ 57) ∨ (65 ≤ c.toNat ∧ c.toNat ≤ 90) ∨ c.toNat = 95 ∨
      (97 ≤ c.toNat ∧ c.toNat ≤ 122) := by
    simp only [continuesIdentifier, isAsciiLetter, isAsciiDigit, Bool.or_eq_true,
      Bool.and_eq_true, decide_eq_true_eq, beq_iff_eq] at h
    rcases h with ((⟨hl, hu⟩ | ⟨hl, hu⟩) | ⟨hl, hu⟩) | rfl
    · exact .inr (.inr (.inr ⟨hle 'a' c hl, hle c 'z' hu⟩))
    · exact .inr (.inl ⟨hle 'A' c hl, hle c 'Z' hu⟩)
    · exact .inl ⟨hle '0' c hl, hle c '9' hu⟩
    · exact .inr (.inr (.inl rfl))
  simp only [isBlank, Bool.or_eq_false_iff, Bool.and_eq_false_iff, decide_eq_false_iff_not,
    beq_eq_false_iff_ne]
  omega

theorem NameText.tight {name : String} (h : NameText name) : Tight name.toList := by
  refine tight_of_all h.ne_nil (List.all_eq_true.2 fun c hmem => ?_)
  rw [isBlank_eq_false_of_continues (continuesIdentifier_of_mem h hmem)]
  rfl

/-! ### Texts and lines -/

/-- The characters that cut a line. -/
def isSpecial (c : Char) : Bool :=
  c == '"' || c == '\'' || c == '#' || c == '\n' || c == ';'

theorem isSpecial_eq_false_of_isPlain {c : Char} (h : isPlain c = true) :
    isSpecial c = false := by
  cases hspecial : isSpecial c with
  | false => rfl
  | true =>
    simp only [isSpecial, Bool.or_eq_true, beq_iff_eq] at hspecial
    rcases hspecial with (((rfl | rfl) | rfl) | rfl) | rfl <;> exact absurd h (by decide)

/-- Every quote in the text is closed, and no comment begins in it. -/
def Closed (cs : List Char) : Prop :=
  ∀ rest, beforeComment none (cs ++ rest) = cs ++ beforeComment none rest

theorem Closed.append {cs ds : List Char} (hc : Closed cs) (hd : Closed ds) :
    Closed (cs ++ ds) := by
  intro rest
  rw [List.append_assoc, hc, hd, List.append_assoc]

/-- Cutting a line leaves the text in one piece. -/
structure Inert (cs : List Char) : Prop where
  closed : Closed cs
  no_newline : '\n' ∉ cs
  no_semicolon : ';' ∉ cs

namespace Inert

variable {cs ds : List Char}

theorem append (hc : Inert cs) (hd : Inert ds) : Inert (cs ++ ds) where
  closed := hc.closed.append hd.closed
  no_newline hmem := (List.mem_append.1 hmem).elim hc.no_newline hd.no_newline
  no_semicolon hmem := (List.mem_append.1 hmem).elim hc.no_semicolon hd.no_semicolon

theorem of_all (h : cs.all (fun c => !isSpecial c) = true) : Inert cs where
  closed rest := by
    induction cs with
    | nil => rfl
    | cons d cs ih =>
      rw [List.all_cons, Bool.and_eq_true, Bool.not_eq_true'] at h
      obtain ⟨hd, hcs⟩ := h
      have hne : ∀ c, isSpecial c = true → d ≠ c := by
        rintro c hc rfl
        rw [hd] at hc
        cases hc
      have hquote : ¬ (d = '"' ∨ d = '\'') := by
        rintro (heq | heq)
        · exact hne '"' rfl heq
        · exact hne '\'' rfl heq
      show beforeComment none (d :: (cs ++ rest)) = d :: (cs ++ beforeComment none rest)
      rw [beforeComment, if_neg (hne '#' rfl), if_neg hquote, ih hcs]
  no_newline hmem := Bool.false_ne_true (List.all_eq_true.1 h '\n' hmem)
  no_semicolon hmem := Bool.false_ne_true (List.all_eq_true.1 h ';' hmem)

end Inert

theorem Plain.inert {cs : List Char} (h : Plain cs) : Inert cs := by
  refine Inert.of_all (List.all_eq_true.2 fun c hmem => ?_)
  rw [isSpecial_eq_false_of_isPlain (h c hmem)]
  rfl

/-- An open quote is closed by the next one of its kind. -/
theorem beforeComment_quoted {quote : Char} {cs : List Char} (h : quote ∉ cs)
    (rest : List Char) :
    beforeComment (some quote) (cs ++ quote :: rest) = cs ++ quote :: beforeComment none rest := by
  induction cs with
  | nil =>
    show beforeComment (some quote) (quote :: rest) = quote :: beforeComment none rest
    rw [beforeComment, if_pos rfl]
  | cons c cs ih =>
    obtain ⟨hc, hcs⟩ := List.ne_and_not_mem_of_not_mem_cons h
    show beforeComment (some quote) (c :: (cs ++ quote :: rest)) = _
    rw [beforeComment, if_neg (Ne.symm hc), ih hcs]
    rfl

theorem StringText.not_mem_quote {quote : Char} {cs : List Char} (h : StringText cs)
    (hquote : quote = '"' ∨ quote = '\'') : quote ∉ cs := by
  rcases hquote with rfl | rfl
  · exact h.no_double_quote
  · exact h.no_single_quote

/-- A text in quotes closes the quote that it opens, whatever else it holds. -/
theorem closed_quoted {quote : Char} {cs : List Char} (hquote : quote = '"' ∨ quote = '\'')
    (hfree : quote ∉ cs) : Closed (quote :: (cs ++ [quote])) := by
  intro rest
  have hsign : quote ≠ '#' := by rcases hquote with rfl | rfl <;> decide
  show beforeComment none (quote :: ((cs ++ [quote]) ++ rest)) = _
  rw [beforeComment, if_neg hsign, if_pos hquote, List.append_assoc]
  show quote :: beforeComment (some quote) (cs ++ quote :: rest) = _
  rw [beforeComment_quoted hfree]
  simp

/-- What stands in a text in quotes is a quote or stands between them. -/
theorem not_mem_quoted {quote c : Char} {cs : List Char} (hne : quote ≠ c) (hcs : c ∉ cs) :
    c ∉ quote :: (cs ++ [quote]) := by
  simp only [List.mem_cons, List.mem_append, List.not_mem_nil, or_false, not_or]
  exact ⟨Ne.symm hne, hcs, Ne.symm hne⟩

/-- What stands between quotes may hold a comment sign. -/
theorem StringText.inert {quote : Char} {cs : List Char} (h : StringText cs)
    (hquote : quote = '"' ∨ quote = '\'') : Inert (quote :: (cs ++ [quote])) where
  closed := closed_quoted hquote (h.not_mem_quote hquote)
  no_newline := not_mem_quoted (by rcases hquote with rfl | rfl <;> decide) h.no_newline
  no_semicolon := not_mem_quoted (by rcases hquote with rfl | rfl <;> decide) h.no_semicolon

/-! ### Texts and arrows -/

/-- No arrow with this tail stands in the text, and none begins at its end. -/
structure Sealed (tail : Char) (cs : List Char) : Prop where
  free : PairFree tail '>' cs
  last : ∀ c ∈ cs.getLast?, c ≠ tail

namespace Sealed

variable {tail : Char} {cs ds : List Char}

theorem append (hc : Sealed tail cs) (hd : Sealed tail ds) : Sealed tail (cs ++ ds) where
  free := hc.free.append_of_last hd.free hc.last
  last c hmem := by
    rw [List.getLast?_append] at hmem
    cases hlast : ds.getLast? with
    | none =>
      rw [hlast, Option.none_or] at hmem
      exact hc.last c hmem
    | some d =>
      rw [hlast, Option.some_or] at hmem
      exact hd.last c (hlast ▸ hmem)

theorem of_not_mem (h : tail ∉ cs) : Sealed tail cs where
  free := PairFree.of_not_mem_left h
  last c hmem := by
    rintro rfl
    exact h (List.mem_of_getLast? hmem)

end Sealed

/-- The tails of the two arrows. -/
def IsTail (tail : Char) : Prop :=
  tail = '-' ∨ tail = '!'

/-- Quotes around a text make no arrow of it. -/
theorem sealed_quoted {tail quote : Char} {cs : List Char} (htail : IsTail tail)
    (hquote : quote = '"' ∨ quote = '\'') (hfree : PairFree tail '>' cs) :
    Sealed tail (quote :: (cs ++ [quote])) := by
  have hne : quote ≠ tail := by
    rcases htail with rfl | rfl <;> rcases hquote with rfl | rfl <;> decide
  have hhead : quote ≠ '>' := by rcases hquote with rfl | rfl <;> decide
  constructor
  · show PairFree tail '>' ([quote] ++ (cs ++ [quote]))
    have hopen : Sealed tail [quote] := Sealed.of_not_mem (by simpa using Ne.symm hne)
    refine hopen.free.append_of_last (hfree.append_of_head hopen.free ?_) hopen.last
    intro y hy
    rw [List.head?_cons, Option.mem_some_iff] at hy
    exact hy ▸ hhead
  · intro c hmem
    rw [← List.cons_append, List.getLast?_concat, Option.mem_some_iff] at hmem
    exact hmem ▸ hne

theorem tight_quoted {quote : Char} (hquote : quote = '"' ∨ quote = '\'') (cs : List Char) :
    Tight (quote :: (cs ++ [quote])) := by
  have hblank : isBlank quote = false := by rcases hquote with rfl | rfl <;> decide
  exact ⟨⟨quote, _, rfl, hblank⟩, ⟨quote :: cs, quote, rfl, hblank⟩⟩

theorem Plain.sealed {tail : Char} {cs : List Char} (htail : IsTail tail) (h : Plain cs) :
    Sealed tail cs := by
  refine Sealed.of_not_mem (h.not_mem ?_)
  rcases htail with rfl | rfl <;> decide

/-! ### Values -/

theorem isPlain_of_isAsciiDigit {c : Char} (h : isAsciiDigit c = true) : isPlain c = true := by
  simp [isPlain, continuesIdentifier, h]

/-- A whole number ends with a digit. -/
theorem isAsciiDigit_of_last_intChars {n : Int} {c : Char} (h : c ∈ (intChars n).getLast?) :
    isAsciiDigit c = true := by
  have hlast : (intChars n).getLast? = (natDigits n.natAbs).getLast? := by
    unfold intChars
    split
    · rw [List.getLast?_cons_of_ne_nil (natDigits_ne_nil _)]
    · rfl
  rw [hlast] at h
  exact isAsciiDigit_of_mem_natDigits (List.mem_of_getLast? h)

namespace ValueText

variable {value : Json} {cs : List Char}

theorem inert (h : ValueText value cs) : Inert cs := by
  cases h with
  | @int n h =>
    refine Inert.of_all (List.all_eq_true.2 fun c hmem => ?_)
    rcases mem_intChars hmem with rfl | hdigit
    · rfl
    · rw [isSpecial_eq_false_of_isPlain (isPlain_of_isAsciiDigit hdigit)]
      rfl
  | yes h => rcases h with rfl | rfl <;> exact Inert.of_all rfl
  | no h => rcases h with rfl | rfl <;> exact Inert.of_all rfl
  | str hquote h => exact h.inert hquote

theorem no_comma (h : ValueText value cs) : ',' ∉ cs := by
  cases h with
  | @int n h =>
    intro hmem
    rcases mem_intChars hmem with heq | hdigit
    · exact absurd heq (by decide)
    · exact absurd hdigit (by decide)
  | yes h => rcases h with rfl | rfl <;> decide
  | no h => rcases h with rfl | rfl <;> decide
  | str hquote h =>
    exact not_mem_quoted (by rcases hquote with rfl | rfl <;> decide) h.no_comma

theorem sealed {tail : Char} (htail : IsTail tail) (h : ValueText value cs) : Sealed tail cs := by
  have hdash : isAsciiDigit tail = false := by rcases htail with rfl | rfl <;> decide
  cases h with
  | @int n h =>
    refine ⟨PairFree.of_not_mem_right fun hmem => ?_, fun c hmem => ?_⟩
    · rcases mem_intChars hmem with heq | hdigit
      · exact absurd heq (by decide)
      · exact absurd hdigit (by decide)
    · rintro rfl
      rw [isAsciiDigit_of_last_intChars hmem] at hdash
      cases hdash
  | yes h =>
    refine Sealed.of_not_mem ?_
    rcases h with rfl | rfl <;> rcases htail with rfl | rfl <;> decide
  | no h =>
    refine Sealed.of_not_mem ?_
    rcases h with rfl | rfl <;> rcases htail with rfl | rfl <;> decide
  | str hquote h =>
    refine sealed_quoted htail hquote ?_
    rcases htail with rfl | rfl
    · exact h.no_arrow
    · exact h.no_barred_arrow

theorem tight (h : ValueText value cs) : Tight cs := by
  cases h with
  | @int n h =>
    refine tight_of_all (intChars_ne_nil n) (List.all_eq_true.2 fun c hmem => ?_)
    rcases mem_intChars hmem with rfl | hdigit
    · rfl
    · rw [isBlank_eq_false_of_continues (by simp [continuesIdentifier, hdigit])]
      rfl
  | yes h => rcases h with rfl | rfl <;> exact tight_of_all (by decide) rfl
  | no h => rcases h with rfl | rfl <;> exact tight_of_all (by decide) rfl
  | str hquote h => exact tight_quoted hquote _

/-- No value begins so that it could belong to the operator before it. -/
theorem head_ne (h : ValueText value cs) : ∀ c ∈ cs.head?, c ≠ '=' := by
  rintro c hmem rfl
  cases h with
  | int h =>
    rcases mem_intChars (List.mem_of_mem_head? hmem) with heq | hdigit
    · exact absurd heq (by decide)
    · exact absurd hdigit (by decide)
  | yes h => rcases h with rfl | rfl <;> cases hmem
  | no h => rcases h with rfl | rfl <;> cases hmem
  | str hquote h =>
    rw [List.head?_cons, Option.mem_some_iff] at hmem
    subst hmem
    exact absurd hquote (by decide)

end ValueText

/-! ### Constraints -/

theorem SignText.inert {op : Comparison} {sign : List Char} (h : SignText op sign) :
    Inert sign := by
  refine Inert.of_all ?_
  cases h with
  | sign => cases op <;> rfl
  | short => rfl

theorem SignText.no_comma {op : Comparison} {sign : List Char} (h : SignText op sign) :
    ',' ∉ sign := by
  cases h with
  | sign => cases op <;> decide
  | short => decide

theorem SignText.sealed {tail : Char} (htail : IsTail tail) {op : Comparison}
    {sign : List Char} (h : SignText op sign) : Sealed tail sign := by
  cases h with
  | sign =>
    constructor
    · rcases htail with rfl | rfl <;> cases op <;> simp [Comparison.sign, PairFree]
    · rcases htail with rfl | rfl <;> cases op <;> simp [Comparison.sign]
  | short =>
    refine Sealed.of_not_mem ?_
    rcases htail with rfl | rfl <;> decide

namespace ConstraintText

variable {c : Constraint} {cs : List Char}

theorem inert (h : ConstraintText c cs) : Inert cs := by
  cases h with
  | intro hname hgap hsign hgap' hvalue =>
    exact (hname.plain.append hgap.plain).inert.append
      (hsign.inert.append (hgap'.plain.inert.append hvalue.inert))

theorem no_comma (h : ConstraintText c cs) : ',' ∉ cs := by
  cases h with
  | intro hname hgap hsign hgap' hvalue =>
    have hplain : isPlain ',' = false := by decide
    simp only [List.mem_append, not_or]
    exact ⟨⟨hname.plain.not_mem hplain, hgap.plain.not_mem hplain⟩, hsign.no_comma,
      hgap'.plain.not_mem hplain, hvalue.no_comma⟩

theorem sealed {tail : Char} (htail : IsTail tail) (h : ConstraintText c cs) :
    Sealed tail cs := by
  cases h with
  | intro hname hgap hsign hgap' hvalue =>
    exact ((hname.plain.append hgap.plain).sealed htail).append
      ((hsign.sealed htail).append ((hgap'.plain.sealed htail).append (hvalue.sealed htail)))

theorem tight (h : ConstraintText c cs) : Tight cs := by
  cases h with
  | @intro name op value gap gap' sign cs hname hgap hsign hgap' hvalue =>
    have heq : name.toList ++ gap ++ (sign ++ (gap' ++ cs))
        = name.toList ++ (gap ++ sign ++ gap') ++ cs := by simp
    rw [heq]
    exact hname.tight.append _ hvalue.tight

end ConstraintText

/-! ### Lists -/

/-- What holds of blanks and of the texts of the items, and of two texts together, holds of
every place in a list. -/
theorem Slot.of_closed {α : Type} {Text : α → List Char → Prop} {P : List Char → Prop}
    (happend : ∀ {cs ds}, P cs → P ds → P (cs ++ ds)) (hgap : ∀ {cs}, Gap cs → P cs)
    (htext : ∀ {x cs}, Text x cs → P cs) {xs : List α} {cs : List Char} (h : Slot Text xs cs) :
    P cs := by
  cases h with
  | blank h => exact hgap h
  | item hbefore h hafter => exact happend (happend (hgap hbefore) (htext h)) (hgap hafter)

theorem Joined.of_closed {α : Type} {Piece : List α → List Char → Prop} {sep : Char}
    {P : List Char → Prop} (happend : ∀ {cs ds}, P cs → P ds → P (cs ++ ds)) (hsep : P [sep])
    (hpiece : ∀ {xs cs}, Piece xs cs → P cs) {xs : List α} {cs : List Char}
    (h : Joined Piece sep xs cs) : P cs := by
  induction h with
  | last h => exact hpiece h
  | more h hrest ih => exact happend (hpiece h) (happend hsep ih)

/-- Cutting at the separator finds the pieces again. -/
theorem Joined.flatMap_pieces {α β : Type} {Piece : List α → List Char → Prop} {sep : Char}
    {read : List Char → List β} {result : α → β} {xs : List α} {cs : List Char}
    (h : Joined Piece sep xs cs) (hsep : ∀ {xs cs}, Piece xs cs → sep ∉ cs)
    (hread : ∀ {xs cs}, Piece xs cs → read cs = xs.map result) :
    (pieces sep cs).flatMap read = xs.map result := by
  induction h with
  | last h => rw [pieces_of_not_mem (hsep h), List.flatMap_singleton, hread h]
  | more h hrest ih =>
    rw [pieces_append (hsep h), List.flatMap_cons, hread h, ih, List.map_append]

/-- The pieces of a list are read when every item is. -/
theorem Joined.map_pieces {α β : Type} {Text : α → List Char → Prop} {sep : Char}
    {read : List Char → β} {result : α → β} {xs : List α} {cs : List Char}
    (h : Joined (Slot Text) sep xs cs) (hblank : isPlain sep = false)
    (hsep : ∀ {x cs}, Text x cs → sep ∉ cs) (htight : ∀ {x cs}, Text x cs → Tight cs)
    (hread : ∀ {x cs}, Text x cs → read cs = result x) :
    (((pieces sep cs).map trim).filter fun piece => !piece.isEmpty).map read
      = xs.map result := by
  -- piece by piece: a blank one gives nothing, any other one result
  have hlist : ∀ ps : List (List Char),
      ((ps.map trim).filter fun piece => !piece.isEmpty).map read
        = ps.flatMap fun p => (if (trim p).isEmpty then [] else [read (trim p)]) := by
    intro ps
    induction ps with
    | nil => rfl
    | cons p ps ih =>
      rw [List.flatMap_cons, ← ih, List.map_cons, List.filter_cons]
      cases (trim p).isEmpty <;> rfl
  rw [hlist]
  refine h.flatMap_pieces (fun hslot => ?_) (fun hslot => ?_)
  · refine Slot.of_closed (P := fun cs => sep ∉ cs) (fun hc hd hmem => ?_) ?_ hsep hslot
    · exact (List.mem_append.1 hmem).elim hc hd
    · exact fun hgap => hgap.plain.not_mem hblank
  · cases hslot with
    | blank hgap => rw [trim_eq_nil_of_blank hgap.blank]; rfl
    | item hbefore h hafter =>
      rw [(htight h).trim_append_eq hbefore.blank hafter.blank, List.map_singleton, hread h]
      have hne : ∀ cs : List Char, cs ≠ [] → cs.isEmpty = false := fun cs hcs =>
        List.isEmpty_eq_false_iff.2 hcs
      rw [hne _ (htight h).ne_nil]
      rfl

/-! ### Statements -/

theorem inert_block {constraints : List Constraint} {body : List Char}
    (h : Joined (Slot ConstraintText) ',' constraints body) : Inert body :=
  h.of_closed Inert.append (Inert.of_all rfl)
    (Slot.of_closed Inert.append (fun hgap => hgap.plain.inert) ConstraintText.inert)

theorem sealed_block {tail : Char} (htail : IsTail tail) {constraints : List Constraint}
    {body : List Char} (h : Joined (Slot ConstraintText) ',' constraints body) :
    Sealed tail body := by
  refine h.of_closed Sealed.append (Sealed.of_not_mem ?_)
    (Slot.of_closed Sealed.append (fun hgap => hgap.plain.sealed htail)
      (ConstraintText.sealed htail))
  rcases htail with rfl | rfl <;> decide

namespace StatementText

variable {s : Statement} {cs : List Char}

theorem inert (h : StatementText s cs) : Inert cs := by
  have harrow : ∀ required, Inert (arrow required) := fun required => by
    refine Inert.of_all ?_
    cases required <;> rfl
  cases h with
  | edge hsource hgap hgap' htarget =>
    exact (hsource.plain.append hgap.plain).inert.append
      ((harrow _).append (hgap'.plain.append htarget.plain).inert)
  | block hsource hgap hgap' htarget hgap'' hbody =>
    refine (hsource.plain.append hgap.plain).inert.append ((harrow _).append
      (((hgap'.plain.append htarget.plain).append hgap''.plain).inert.append ?_))
    have hopen : Inert ['['] := Inert.of_all rfl
    have hclose : Inert [']'] := Inert.of_all rfl
    exact hopen.append ((inert_block hbody).append hclose)
  | vertex hentity hgap hgap' hconstraint =>
    have hpoint : Inert ['.'] := Inert.of_all rfl
    exact (hentity.plain.append hgap.plain).inert.append
      (hpoint.append (hgap'.plain.inert.append hconstraint.inert))

theorem tight (h : StatementText s cs) : Tight cs := by
  cases h with
  | @edge source target required gap gap' hsource hgap hgap' htarget =>
    have heq : source.toList ++ gap ++ (arrow required ++ (gap' ++ target.toList))
        = source.toList ++ (gap ++ arrow required ++ gap') ++ target.toList := by simp
    rw [heq]
    exact hsource.tight.append _ htarget.tight
  | @block source target required constraints gap gap' gap'' body hsource =>
    have heq : source.toList ++ gap
          ++ (arrow required ++ (gap' ++ target.toList ++ gap'' ++ '[' :: (body ++ [']'])))
        = source.toList ++ (gap ++ arrow required ++ gap' ++ target.toList ++ gap'' ++ '[' :: body)
          ++ [']'] := by simp
    rw [heq]
    exact hsource.tight.append _ (tight_of_all (by decide) rfl)
  | @vertex entity c gap gap' cs hentity hgap hgap' hconstraint =>
    have heq : entity.toList ++ gap ++ '.' :: (gap' ++ cs)
        = entity.toList ++ (gap ++ '.' :: gap') ++ cs := by simp
    rw [heq]
    exact hentity.tight.append _ hconstraint.tight

end StatementText

/-- A line holds no line feed. -/
theorem LineText.no_newline {ss : List Statement} {cs : List Char} (h : LineText ss cs) :
    '\n' ∉ cs := by
  have hbody : ∀ {cs}, Joined (Slot StatementText) ';' ss cs → '\n' ∉ cs := fun hjoined =>
    hjoined.of_closed (P := fun cs => '\n' ∉ cs)
      (fun hc hd hmem => (List.mem_append.1 hmem).elim hc hd) (by decide)
      fun hslot => (hslot.of_closed Inert.append (fun hgap => hgap.plain.inert)
        StatementText.inert).no_newline
  cases h with
  | plain h => exact hbody h
  | comment h hnote =>
    intro hmem
    rcases List.mem_append.1 hmem with hmem | hmem
    · exact hbody h hmem
    · rcases List.mem_cons.1 hmem with heq | hmem
      · exact absurd heq (by decide)
      · exact hnote hmem

/-! ### What can be written -/

/-- A constraint that can be written. -/
def WritableConstraint (c : Constraint) : Prop :=
  NameText c.name ∧ ∃ cs, ValueText c.value cs

/-- A statement that can be written. -/
def Writable : Statement → Prop
  | .edge e => NameText e.source ∧ NameText e.target ∧ ∀ c ∈ e.constraints, WritableConstraint c
  | .vertex entity c => NameText entity ∧ WritableConstraint c

theorem gap_nil : Gap [] :=
  fun _ hc => nomatch hc

theorem exists_joined {α : Type} {Text : α → List Char → Prop} (sep : Char) {xs : List α}
    (h : ∀ x ∈ xs, ∃ cs, Text x cs) : ∃ cs, Joined (Slot Text) sep xs cs := by
  induction xs with
  | nil => exact ⟨[], .last (.blank gap_nil)⟩
  | cons x xs ih =>
    obtain ⟨cs, hcs⟩ := h x List.mem_cons_self
    obtain ⟨rest, hrest⟩ := ih fun y hy => h y (List.mem_cons_of_mem x hy)
    exact ⟨_, .more (.item gap_nil hcs gap_nil) hrest⟩

theorem exists_constraintText {c : Constraint} (h : WritableConstraint c) :
    ∃ cs, ConstraintText c cs := by
  obtain ⟨hname, cs, hvalue⟩ := h
  exact ⟨_, .intro hname gap_nil (.sign c.comparison) gap_nil hvalue⟩

theorem exists_statementText {s : Statement} (h : Writable s) : ∃ cs, StatementText s cs := by
  cases s with
  | edge e =>
    obtain ⟨hsource, htarget, hconstraints⟩ := h
    obtain ⟨body, hbody⟩ := exists_joined ',' fun c hc => exists_constraintText (hconstraints c hc)
    exact ⟨_, .block hsource gap_nil gap_nil htarget gap_nil hbody⟩
  | vertex entity c =>
    obtain ⟨hentity, hconstraint⟩ := h
    obtain ⟨cs, hcs⟩ := exists_constraintText hconstraint
    exact ⟨_, .vertex hentity gap_nil gap_nil hcs⟩

/-- Every list of statements that can be written has a text. -/
theorem exists_motifText {ss : List Statement} (h : ∀ s ∈ ss, Writable s) :
    ∃ cs, MotifText ss cs := by
  obtain ⟨cs, hcs⟩ := exists_joined ';' fun s hs => exists_statementText (h s hs)
  exact ⟨cs, .last (.plain hcs)⟩

end MotifQuery.Motif
