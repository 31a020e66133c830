import MotifQuery.Proofs.Cypher.Offsets

/-!
# `MotifQuery.Proofs.Cypher.Lossless`: what the tokens of a text leave out

Which characters of a query text are written for nothing is said without tokens: a scan from left to
right knows of each character whether it stands in a quoted text, in a comment, or outside both
(`Zone`). `kept` are the characters but the blanks and the comments outside quoted texts. `faults`
are the characters that can start no token, and at the end the quote that is not closed.

* `tokens_sound`: the texts of the tokens, joined, are the characters that are kept, and a text with
  faults is refused for the first of them.
* `tokens_lossless`: so it is for every text, and the loop that cuts the text at byte offsets ends
  there.
-/

set_option autoImplicit false

namespace MotifQuery.Cypher

open Text

/-! ### Zones -/

/-- Where a character stands. -/
inductive Zone where
  /-- Outside quoted texts and comments. -/
  | code
  | comment
  /-- Behind an opening quote, up to the closing one. -/
  | literal (quote : Char)
deriving DecidableEq

namespace Zone

/-- Where the character after `c` stands; `rest` is what follows `c`. -/
def next : Zone → Char → List Char → Zone
  | code, c, rest =>
    if c = '"' ∨ c = '\'' then literal c
    else if OpensComment c rest then comment
    else code
  | comment, c, _ => if c = '\n' then code else comment
  | literal quote, c, _ => if c = quote then code else literal quote

/-- Is the character kept? -/
def keeps : Zone → Char → List Char → Bool
  | code, c, rest => !isBlank c && !decide (OpensComment c rest)
  | comment, _, _ => false
  | literal _, _, _ => true

/-- Reads a text from left to right, and joins what is found at each character and at the end. -/
def walk {α : Type} (here : Zone → Char → List Char → List α) (atEnd : Zone → List α) :
    Zone → List Char → List α
  | z, [] => atEnd z
  | z, c :: rest => here z c rest ++ walk here atEnd (z.next c rest) rest

/-- Reading on from a text in a zone one comes to a rest of it in another zone. -/
inductive Reaches : Zone → List Char → Zone → List Char → Prop where
  | refl (z : Zone) (cs : List Char) : Reaches z cs z cs
  | step {z z' : Zone} {c : Char} {cs rest : List Char} (h : Reaches (z.next c cs) cs z' rest) :
      Reaches z (c :: cs) z' rest

end Zone

/-- The text without the blanks and the comments outside quoted texts. -/
def kept (cs : List Char) : List Char :=
  Zone.code.walk (fun z c rest => if z.keeps c rest then [c] else []) (fun _ => []) cs

/-- The text begins with a mark. -/
def BeginsWithMark (cs : List Char) : Prop :=
  ∃ m : Mark, m.text.toList <+: cs

instance (cs : List Char) : Decidable (BeginsWithMark cs) :=
  decidable_of_iff (∃ m ∈ Mark.table, m.text.toList <+: cs)
    ⟨fun ⟨m, _, h⟩ => ⟨m, h⟩, fun ⟨m, h⟩ => ⟨m, m.mem_table, h⟩⟩

/-- A token may start with the character. -/
def StartsToken (c : Char) (rest : List Char) : Prop :=
  (c = '"' ∨ c = '\'') ∨ isAsciiDigit c = true ∨ startsWord c = true ∨ BeginsWithMark (c :: rest)

instance (c : Char) (rest : List Char) : Decidable (StartsToken c rest) :=
  inferInstanceAs (Decidable (_ ∨ _ ∨ _ ∨ _))

/-- The character, outside quoted texts and comments, is neither blank nor the start of a comment
or a token. -/
def Stray (c : Char) (rest : List Char) : Prop :=
  isBlank c = false ∧ ¬ OpensComment c rest ∧ ¬ StartsToken c rest

instance (c : Char) (rest : List Char) : Decidable (Stray c rest) :=
  inferInstanceAs (Decidable (_ ∧ _ ∧ _))

/-- The faults of a text from left to right. -/
def faults (cs : List Char) : List LexicalFault :=
  Zone.code.walk
    (fun z c rest => if z = .code ∧ Stray c rest then [.unexpected c] else [])
    (fun z => match z with
      | .literal _ => [.unterminated]
      | _ => []) cs

/-! ### Walks -/

namespace Zone

variable {α : Type} {here : Zone → Char → List Char → List α} {atEnd : Zone → List α}
  {z : Zone} {cs rest : List Char}

/-- Characters that do not end the zone are walked through one by one. -/
theorem walk_run {f : Char → List α} {run : List Char}
    (h : ∀ c ∈ run, ∀ rest, z.next c rest = z ∧ here z c rest = f c) (rest : List Char) :
    z.walk here atEnd (run ++ rest) = run.flatMap f ++ z.walk here atEnd rest := by
  induction run with
  | nil => rfl
  | cons c run ih =>
    obtain ⟨hc, hrun⟩ := List.forall_mem_cons.1 h
    obtain ⟨hnext, hhere⟩ := hc (run ++ rest)
    rw [List.cons_append, walk, hnext, hhere, ih hrun, List.flatMap_cons, List.append_assoc]

/-- What a walk finds is found at the end or at a character that it comes to. -/
theorem mem_walk_iff {a : α} :
    a ∈ z.walk here atEnd cs ↔
      (∃ z', Reaches z cs z' [] ∧ a ∈ atEnd z') ∨
        ∃ z' c rest, Reaches z cs z' (c :: rest) ∧ a ∈ here z' c rest := by
  -- the zone changes with every character
  induction cs generalizing z with
  | nil =>
    rw [walk]
    constructor
    · exact fun h => .inl ⟨z, .refl z [], h⟩
    · rintro (⟨z', hreach, h⟩ | ⟨z', c, rest, hreach, -⟩)
      · cases hreach
        exact h
      · cases hreach
  | cons c cs ih =>
    rw [walk, List.mem_append, ih]
    constructor
    · rintro (h | ⟨z', hreach, h⟩ | ⟨z', d, rest, hreach, h⟩)
      · exact .inr ⟨z, c, cs, .refl z _, h⟩
      · exact .inl ⟨z', .step hreach, h⟩
      · exact .inr ⟨z', d, rest, .step hreach, h⟩
    · rintro (⟨z', hreach, h⟩ | ⟨z', d, rest, hreach, h⟩)
      · cases hreach with
        | step hreach => exact .inr (.inl ⟨z', hreach, h⟩)
      · cases hreach with
        | refl => exact .inl h
        | step hreach => exact .inr (.inr ⟨z', d, rest, hreach, h⟩)

end Zone

/-- The walk finds the same at every character of a token, `f` of it, and nothing in between. -/
structure Finds {α : Type} (here : Zone → Char → List Char → List α) (atEnd : Zone → List α)
    (f : Char → List α) : Prop where
  blank : ∀ c rest, isBlank c = true → here .code c rest = []
  opens : ∀ c rest, OpensComment c rest → here .code c rest = []
  comment : ∀ c rest, here .comment c rest = []
  literal : ∀ quote c rest, here (.literal quote) c rest = f c
  token : ∀ c rest, isBlank c = false → ¬ OpensComment c rest → StartsToken c rest →
    here .code c rest = f c
  ends : atEnd .comment = atEnd .code

theorem finds_kept :
    Finds (fun z c rest => if z.keeps c rest then [c] else []) (fun _ => []) (fun c => [c]) where
  blank _ _ h := by simp [Zone.keeps, h]
  opens _ _ h := by simp [Zone.keeps, h]
  comment _ _ := rfl
  literal _ _ _ := rfl
  token _ _ hblank hcomment _ := by simp [Zone.keeps, hblank, hcomment]
  ends := rfl

theorem finds_faults :
    Finds (fun z c rest => if z = .code ∧ Stray c rest then [LexicalFault.unexpected c] else [])
      (fun z => match z with
        | .literal _ => [.unterminated]
        | _ => [])
      (fun _ => []) where
  blank _ _ h := if_neg fun hstray => Bool.false_ne_true (hstray.2.1.symm.trans h)
  opens _ _ h := if_neg fun hstray => hstray.2.2.1 h
  comment _ _ := if_neg fun hstray => nomatch hstray.1
  literal _ _ _ := if_neg fun hstray => nomatch hstray.1
  token _ _ _ _ h := if_neg fun hstray => hstray.2.2.2 h
  ends := rfl

/-- The character is one of a token, whatever follows it. -/
structure Solid (c : Char) : Prop where
  not_blank : isBlank c = false
  not_slash : c ≠ '/'
  not_quote : ¬ (c = '"' ∨ c = '\'')
  starts : ∀ rest, StartsToken c rest

theorem solid_of_continuesWord {c : Char} (h : continuesWord c = true) : Solid c := by
  have hne : ∀ d, continuesWord d = false → c ≠ d := by
    rintro d hd rfl
    rw [h] at hd
    cases hd
  refine ⟨Motif.isBlank_eq_false_of_continues h, hne '/' rfl, ?_, fun rest => ?_⟩
  · rintro (heq | heq)
    · exact hne '"' rfl heq
    · exact hne '\'' rfl heq
  · rw [continuesWord, Bool.or_eq_true, Bool.or_eq_true] at h
    rcases h with (hletter | hdigit) | hline
    · exact .inr (.inr (.inl (by rw [startsWord, hletter, Bool.true_or])))
    · exact .inr (.inl hdigit)
    · exact .inr (.inr (.inl (by rw [startsWord, hline, Bool.or_true])))

theorem solid_of_mark {m : Mark} {c : Char} (h : m.text.toList = [c]) : Solid c := by
  have hplain : isBlank c = false ∧ c ≠ '/' ∧ ¬ (c = '"' ∨ c = '\'') := by
    cases m <;> cases h <;> decide
  refine ⟨hplain.1, hplain.2.1, hplain.2.2, fun rest => .inr (.inr (.inr ⟨m, rest, ?_⟩))⟩
  rw [h, List.singleton_append]

theorem solid_of_continuesNumber {c : Char} (h : continuesNumber c = true) : Solid c := by
  rw [continuesNumber, Bool.or_eq_true] at h
  rcases h with hdigit | hdot
  · exact solid_of_continuesWord (by rw [continuesWord, hdigit, Bool.or_true, Bool.true_or])
  · rw [beq_iff_eq.1 hdot]
    exact solid_of_mark (m := .dot) rfl

/-- Only one mark has a character that is no mark of its own. -/
theorem solid_of_mem_mark {m : Mark} (hm : m ≠ .bangEqual) : ∀ c ∈ m.text.toList, Solid c := by
  have hsingle :
      (m.text.toList.all fun c => Mark.table.any fun n => n.text.toList == [c]) = true := by
    cases m with
    | bangEqual => exact absurd rfl hm
    | _ => rfl
  intro c hc
  obtain ⟨n, -, hn⟩ := List.any_eq_true.1 (List.all_eq_true.1 hsingle c hc)
  exact solid_of_mark (beq_iff_eq.1 hn)

section Walks

variable {α : Type} {here : Zone → Char → List Char → List α} {atEnd : Zone → List α}
  {f : Char → List α}

theorem walk_solid (hw : Finds here atEnd f) {run : List Char} (h : ∀ c ∈ run, Solid c)
    (rest : List Char) :
    Zone.code.walk here atEnd (run ++ rest) = run.flatMap f ++ Zone.code.walk here atEnd rest := by
  refine Zone.walk_run (fun c hc rest => ?_) rest
  have hsolid := h c hc
  have hcomment : ¬ OpensComment c rest := fun h => hsolid.not_slash h.1
  rw [Zone.next, if_neg hsolid.not_quote, if_neg hcomment]
  exact ⟨rfl, hw.token c rest hsolid.not_blank hcomment (hsolid.starts rest)⟩

theorem walk_comment (hw : Finds here atEnd f) {note : List Char} (h : '\n' ∉ note)
    {rest : List Char} (hrest : ∀ d ∈ rest.head?, d = '\n') :
    Zone.comment.walk here atEnd (note ++ rest) = Zone.code.walk here atEnd rest := by
  have hrun : ∀ c ∈ note, ∀ rest, Zone.comment.next c rest = .comment ∧ here .comment c rest = [] :=
    fun c hc rest => by
      have hne : c ≠ '\n' := fun heq => h (heq ▸ hc)
      exact ⟨by rw [Zone.next, if_neg hne], hw.comment c rest⟩
  rw [Zone.walk_run hrun, List.flatMap_eq_nil_iff.2 fun _ _ => rfl, List.nil_append]
  cases rest with
  | nil => exact hw.ends
  | cons d rest =>
    -- the line feed is the last character of the zone, and is left out as a blank would be
    rw [hrest d rfl, Zone.walk, Zone.walk, hw.comment, hw.blank '\n' rest rfl]
    rfl

theorem walk_literal (hw : Finds here atEnd f) {quote : Char} {inner : List Char}
    (h : quote ∉ inner) (rest : List Char) :
    (Zone.literal quote).walk here atEnd (inner ++ rest)
      = inner.flatMap f ++ (Zone.literal quote).walk here atEnd rest := by
  refine Zone.walk_run (fun c hc rest => ⟨?_, hw.literal quote c rest⟩) rest
  have hne : c ≠ quote := fun heq => h (heq ▸ hc)
  rw [Zone.next, if_neg hne]

theorem walk_quote (hw : Finds here atEnd f) {quote : Char} (h : quote = '"' ∨ quote = '\'')
    (cs : List Char) :
    Zone.code.walk here atEnd (quote :: cs)
      = f quote ++ (Zone.literal quote).walk here atEnd cs := by
  have hcomment : ¬ OpensComment quote cs := fun hcomment => by
    rcases h with rfl | rfl <;> exact absurd hcomment.1 (by decide)
  rw [Zone.walk, hw.token quote cs (isBlank_eq_false_of_quote h) hcomment (.inl h), Zone.next,
    if_pos h]

/-- A walk finds every character of a mark. -/
theorem walk_mark (hw : Finds here atEnd f) (m : Mark) (rest : List Char) :
    Zone.code.walk here atEnd (m.text.toList ++ rest)
      = m.text.toList.flatMap f ++ Zone.code.walk here atEnd rest := by
  by_cases hm : m = .bangEqual
  · subst hm
    -- the first character of this mark is a token only together with the second
    have hstarts : StartsToken '!' ('=' :: rest) :=
      .inr (.inr (.inr ⟨.bangEqual, rest, rfl⟩))
    have hequal : ∀ c ∈ ['='], Solid c :=
      List.forall_mem_singleton.2 (solid_of_mark (m := .equal) rfl)
    have hwalk := walk_solid hw hequal rest
    show Zone.code.walk here atEnd ('!' :: '=' :: rest) = ['!', '='].flatMap f ++ _
    rw [Zone.walk, hw.token '!' _ rfl (by rintro ⟨h, -⟩; cases h) hstarts]
    show f '!' ++ Zone.code.walk here atEnd (['='] ++ rest) = _
    rw [hwalk, ← List.append_assoc]
    rfl
  · exact walk_solid hw (solid_of_mem_mark hm) rest

/-- A walk finds the characters of a piece that is a token, and nothing in any other piece. -/
theorem Piece.walk (hw : Finds here atEnd f) {cs rest : List Char} {t : Option Token}
    (h : Piece cs t rest) :
    Zone.code.walk here atEnd cs
      = (t.toList.flatMap Token.lexeme).flatMap f ++ Zone.code.walk here atEnd rest := by
  cases h with
  | @blank c _ hc =>
    have hquote : ¬ (c = '"' ∨ c = '\'') := fun h => by
      rw [isBlank_eq_false_of_quote h] at hc
      cases hc
    have hcomment : ¬ OpensComment c rest := fun h => by
      rw [h.1] at hc
      cases hc
    rw [Zone.walk, hw.blank c rest hc, Zone.next, if_neg hquote, if_neg hcomment]
    rfl
  | @comment note _ hnote hrest =>
    have hopens : OpensComment '/' ('/' :: (note ++ rest)) := ⟨rfl, rfl⟩
    have hslash : '\n' ∉ '/' :: note := fun h =>
      hnote ((List.mem_cons.1 h).resolve_left (by decide))
    rw [Zone.walk, hw.opens _ _ hopens, Zone.next, if_neg (by decide), if_pos hopens,
      ← List.cons_append, walk_comment hw hslash hrest]
    rfl
  | @quoted quote inner _ hquote hinner =>
    rw [walk_quote hw hquote, walk_literal hw hinner, Zone.walk, hw.literal, Zone.next, if_pos rfl]
    simp [Token.lexeme]
  | @number c run _ hc hrun =>
    have hall : ∀ d ∈ c :: run, Solid d := List.forall_mem_cons.2
      ⟨solid_of_continuesNumber (by rw [continuesNumber, hc, Bool.true_or]),
        fun d hd => solid_of_continuesNumber (hrun d hd)⟩
    rw [← List.cons_append, walk_solid hw hall]
    simp [Token.lexeme]
  | @word c run _ hc hrun =>
    have hall : ∀ d ∈ c :: run, Solid d := List.forall_mem_cons.2
      ⟨solid_of_continuesWord (continuesWord_of_startsWord hc),
        fun d hd => solid_of_continuesWord (hrun d hd)⟩
    rw [← List.cons_append, walk_solid hw hall]
    simp [Token.lexeme]
  | mark m =>
    rw [show (some (Token.mark m)).toList.flatMap Token.lexeme = m.text.toList from
      List.append_nil _]
    exact walk_mark hw m rest

end Walks

/-- A text that begins with a flaw has it as its first fault. -/
theorem Flaw.head?_faults {cs : List Char} {f : LexicalFault} (h : Flaw cs f) :
    (faults cs).head? = some f := by
  cases h with
  | @unterminated quote cs hquote hcs =>
    have hopen := walk_literal finds_faults hcs []
    rw [List.append_nil] at hopen
    rw [faults, walk_quote finds_faults hquote, hopen, List.flatMap_eq_nil_iff.2 fun _ _ => rfl]
    rfl
  | @unexpected c cs hblank hcomment hquote hdigit hword hmark =>
    have hstray : Stray c cs := by
      refine ⟨hblank, hcomment, ?_⟩
      rintro (h | h | h | ⟨m, h⟩)
      · exact hquote h
      · exact Bool.false_ne_true (hdigit.symm.trans h)
      · exact Bool.false_ne_true (hword.symm.trans h)
      · exact hmark m h
    rw [faults, Zone.walk, if_pos ⟨rfl, hstray⟩]
    rfl

/-! ### All tokens -/

/-- The tokens of a text write what is kept of it; a text with a fault is refused for the first
one. -/
theorem tokens_sound (cs : List Char) :
    match tokens cs with
    | .ok ts => ts.flatMap Token.lexeme = kept cs ∧ faults cs = []
    | .error f => (faults cs).head? = some f := by
  induction cs using piece_induction with
  | nil => exact ⟨rfl, rfl⟩
  | flaw c cs f hread => exact (flaw_of_readPiece hread).head?_faults
  | piece c cs t rest hread ih =>
    have hpiece := piece_of_readPiece hread
    -- a piece keeps the text of its token and holds no fault
    have hkept : kept (c :: cs) = t.toList.flatMap Token.lexeme ++ kept rest := by
      rw [kept, hpiece.walk finds_kept, List.flatMap_singleton', kept]
    have hfaults : faults (c :: cs) = faults rest := by
      rw [faults, hpiece.walk finds_faults, List.flatMap_eq_nil_iff.2 fun _ _ => rfl]
      rfl
    rw [hfaults]
    cases hrest : tokens rest with
    | error f =>
      rw [hrest] at ih
      exact ih
    | ok ts =>
      rw [hrest] at ih
      refine ⟨?_, ih.2⟩
      rw [List.flatMap_append, ih.1, hkept]

theorem tokens_eq_error_iff {cs : List Char} {f : LexicalFault} :
    tokens cs = .error f ↔ (faults cs).head? = some f := by
  have hsound := tokens_sound cs
  cases htokens : tokens cs with
  | error f' =>
    rw [htokens] at hsound
    rw [hsound, Except.error.injEq, Option.some_inj]
  | ok ts =>
    rw [htokens] at hsound
    rw [hsound.2]
    exact iff_of_false (fun h => nomatch h) (fun h => nomatch h)

/-- A text has a fault when it ends in a quoted text or when a stray character stands in it. -/
theorem faults_ne_nil_iff {cs : List Char} :
    faults cs ≠ [] ↔
      (∃ quote, Zone.Reaches .code cs (.literal quote) []) ∨
        ∃ c rest, Zone.Reaches .code cs .code (c :: rest) ∧ Stray c rest := by
  have hexists : faults cs ≠ [] ↔ ∃ f, f ∈ faults cs :=
    ⟨List.exists_mem_of_ne_nil _, fun ⟨_, h⟩ => List.ne_nil_of_mem h⟩
  rw [hexists]
  constructor
  · rintro ⟨f, hf⟩
    rcases Zone.mem_walk_iff.1 hf with ⟨z, hreach, hf⟩ | ⟨z, c, rest, hreach, hf⟩
    · cases z with
      | literal quote => exact .inl ⟨quote, hreach⟩
      | _ => cases hf
    · split at hf
      · next hstray =>
        rw [hstray.1] at hreach
        exact .inr ⟨c, rest, hreach, hstray.2⟩
      · cases hf
  · rintro (⟨quote, hreach⟩ | ⟨c, rest, hreach, hstray⟩)
    · exact ⟨_, Zone.mem_walk_iff.2 (.inl ⟨_, hreach, List.mem_singleton_self _⟩)⟩
    · refine ⟨.unexpected c, Zone.mem_walk_iff.2 (.inr ⟨_, c, rest, hreach, ?_⟩)⟩
      rw [if_pos ⟨rfl, hstray⟩]
      exact List.mem_singleton_self _

/-- The loop that cuts a text at byte offsets ends, never cuts inside a character, and gives its
tokens. Their texts, joined, are the text without the blanks and comments outside quoted texts; and
there are none exactly when a quoted text is not closed or a character outside quoted texts and
comments starts no token. -/
theorem tokens_lossless (source : String) :
    (∀ out, Run source.toList out ↔ out = tokens source.toList) ∧
      (∀ ts, tokens source.toList = .ok ts → ts.flatMap Token.lexeme = kept source.toList) ∧
      ((∃ f, tokens source.toList = .error f) ↔
        (∃ quote, Zone.Reaches .code source.toList (.literal quote) []) ∨
          ∃ c rest, Zone.Reaches .code source.toList .code (c :: rest) ∧ Stray c rest) := by
  refine ⟨fun out => run_iff, fun ts hts => ?_, ?_⟩
  · have hsound := tokens_sound source.toList
    rw [hts] at hsound
    exact hsound.1
  · rw [← faults_ne_nil_iff]
    simp only [tokens_eq_error_iff]
    rw [← Option.isSome_iff_exists, List.isSome_head?]

/-- Comment signs in a quoted text are kept, and a quote in a comment opens nothing. -/
theorem tokens_lossless_of_comment_signs :
    ∃ ts, tokens "a != 'ü//' // \"\n-> b".toList = .ok ts ∧
      Run "a != 'ü//' // \"\n-> b".toList (.ok ts) ∧
      ts.flatMap Token.lexeme = "a!='ü//'->b".toList := by
  obtain ⟨hrun, hkept, -⟩ := tokens_lossless "a != 'ü//' // \"\n-> b"
  have htokens : tokens "a != 'ü//' // \"\n-> b".toList =
      .ok [.word "a", .mark .bangEqual, .quoted '\'' "ü//", .mark .arrowRight, .word "b"] := by
    decide
  exact ⟨_, htokens, (hrun _).2 htokens.symm, (hkept _ htokens).trans (by decide)⟩

end MotifQuery.Cypher
