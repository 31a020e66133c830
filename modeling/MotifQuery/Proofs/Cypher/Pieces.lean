import MotifQuery.Proofs.Cypher.Layout
import MotifQuery.Proofs.Except

/-!
# `MotifQuery.Proofs.Cypher.Pieces`: what one step of the tokenizer reads

`Piece` lists what a text can begin with and what is then read of it; `piece_of_readPiece` says
that a step reads nothing else, and `flaw_of_readPiece` when a step fails. A step takes at least
one character (`Piece.length_lt`), so that the tokens of a text are those of its first piece and
those of the rest (`tokens_cons`), and a proof about all tokens goes by `piece_induction`. So the
words among them are identifiers (`nameText_of_mem_tokens`).
-/

set_option autoImplicit false

namespace MotifQuery.Cypher

open Text

variable {c : Char} {cs rest : List Char} {t : Option Token}

/-! ### Marks -/

/-- The marks, a longer one before its beginning. -/
def Mark.table : List Mark :=
  [arrowRight, arrowLeft, unequal, atMost, atLeast, bangEqual, openRound, closeRound, openSquare,
    closeSquare, colon, comma, dot, star, dash, less, greater, equal, semicolon]

theorem Mark.mem_table (m : Mark) : m ∈ table := by
  cases m <;> decide

/-- A mark that is read is what the text begins with. -/
theorem Mark.eq_of_read? {m : Mark} (h : Mark.read? cs = some (m, rest)) :
    cs = m.text.toList ++ rest := by
  unfold Mark.read? at h
  split at h <;> cases h <;> rfl

/-- The first mark of the table that a text begins with is not the beginning of a longer one
there. -/
theorem Mark.not_runsOn_of_find? {m : Mark}
    (h : (table.find? fun n => n.text.toList.isPrefixOf (m.text.toList ++ rest)) = some m) :
    ∀ d ∈ rest.head?, (Token.mark m).runsOn d = false := by
  cases rest with
  | nil => exact fun d hd => nomatch hd
  | cons d rest =>
    intro d' hd'
    obtain rfl := Option.some.inj hd'
    rw [← Bool.not_eq_true]
    intro hruns
    -- only three marks begin a longer one, and that one stands earlier in the table
    cases m with
    | dash =>
      obtain rfl := beq_iff_eq.1 hruns
      cases h
    | less =>
      simp only [Token.runsOn, Bool.or_eq_true, beq_iff_eq] at hruns
      rcases hruns with (rfl | rfl) | rfl <;> cases h
    | greater =>
      obtain rfl := beq_iff_eq.1 hruns
      cases h
    | _ => cases hruns

/-- Trying the marks one after the other finds the longest one. -/
theorem Mark.find?_table (cs : List Char) :
    (table.find? fun m => m.text.toList.isPrefixOf cs) = (Mark.read? cs).map Prod.fst := by
  cases hfind : table.find? fun m => m.text.toList.isPrefixOf cs with
  | some m =>
    have hprefix : m.text.toList.isPrefixOf cs = true :=
      List.find?_some (p := fun n : Mark => n.text.toList.isPrefixOf cs) hfind
    obtain ⟨rest, rfl⟩ := List.isPrefixOf_iff_prefix.1 hprefix
    rw [m.read?_text (not_runsOn_of_find? hfind)]
    rfl
  | none =>
    cases hread : Mark.read? cs with
    | none => rfl
    | some out =>
      obtain ⟨m, rest⟩ := out
      refine absurd ?_ (List.find?_eq_none.1 hfind m m.mem_table)
      exact List.isPrefixOf_iff_prefix.2 ⟨rest, (eq_of_read? hread).symm⟩

/-- No mark is read where the text begins with none. -/
theorem Mark.read?_eq_none_iff : Mark.read? cs = none ↔ ∀ m : Mark, ¬ m.text.toList <+: cs := by
  rw [← Option.map_eq_none_iff (f := Prod.fst), ← find?_table, List.find?_eq_none]
  simp only [List.isPrefixOf_iff_prefix]
  exact ⟨fun h m => h m m.mem_table, fun h m _ => h m⟩

/-! ### One piece -/

/-- A comment starts with the character. -/
def OpensComment (c : Char) (cs : List Char) : Prop :=
  c = '/' ∧ cs.head? = some '/'

instance : Decidable (OpensComment c cs) :=
  inferInstanceAs (Decidable (_ ∧ _))

/-- A text, the token that its first piece is, if it is one, and the rest of the text. -/
inductive Piece : List Char → Option Token → List Char → Prop where
  | blank {c : Char} {rest : List Char} (hc : isBlank c = true) : Piece (c :: rest) none rest
  | comment {note rest : List Char} (hnote : '\n' ∉ note) (hrest : ∀ d ∈ rest.head?, d = '\n') :
      Piece ('/' :: '/' :: (note ++ rest)) none rest
  | quoted {quote : Char} {inner rest : List Char} (hquote : quote = '"' ∨ quote = '\'')
      (hinner : quote ∉ inner) :
      Piece (quote :: (inner ++ quote :: rest)) (some (.quoted quote (String.ofList inner))) rest
  | number {c : Char} {run rest : List Char} (hc : isAsciiDigit c = true)
      (hrun : ∀ d ∈ run, continuesNumber d = true) :
      Piece (c :: (run ++ rest)) (some (.number (String.ofList (c :: run)))) rest
  | word {c : Char} {run rest : List Char} (hc : startsWord c = true)
      (hrun : ∀ d ∈ run, continuesWord d = true) :
      Piece (c :: (run ++ rest)) (some (.word (String.ofList (c :: run)))) rest
  | mark (m : Mark) {rest : List Char} : Piece (m.text.toList ++ rest) (some (.mark m)) rest

/-- A fault and a text that begins with it. -/
inductive Flaw : List Char → LexicalFault → Prop where
  | unterminated {quote : Char} {cs : List Char} (hquote : quote = '"' ∨ quote = '\'')
      (h : quote ∉ cs) : Flaw (quote :: cs) .unterminated
  | unexpected {c : Char} {cs : List Char} (hblank : isBlank c = false)
      (hcomment : ¬ OpensComment c cs) (hquote : ¬ (c = '"' ∨ c = '\''))
      (hdigit : isAsciiDigit c = false) (hword : startsWord c = false)
      (hmark : ∀ m : Mark, ¬ m.text.toList <+: c :: cs) : Flaw (c :: cs) (.unexpected c)

theorem head_dropWhile_ne {d p : Char} (h : cs.dropWhile (· != p) = d :: rest) : d = p := by
  have hhead := List.head?_dropWhile_not (· != p) cs
  rw [h] at hhead
  simpa using hhead

theorem not_mem_takeWhile_ne (p : Char) (cs : List Char) : p ∉ cs.takeWhile (· != p) := by
  intro h
  simpa using List.mem_takeWhile_imp h

/-- What a step reads is a piece. -/
theorem piece_of_readPiece (h : readPiece c cs = .ok (t, rest)) : Piece (c :: cs) t rest := by
  unfold readPiece at h
  split at h
  · next hblank =>
    cases h
    exact .blank hblank
  · split at h
    · next hcomment =>
      cases h
      obtain ⟨rfl, hhead⟩ := hcomment
      obtain ⟨note, rfl⟩ := List.head?_eq_some_iff.1 hhead
      rw [List.dropWhile_cons_of_pos rfl]
      have hstop : ∀ d ∈ (note.dropWhile (· != '\n')).head?, d = '\n' := fun d hd => by
        obtain ⟨ds, hds⟩ := List.head?_eq_some_iff.1 (Option.mem_def.1 hd)
        exact head_dropWhile_ne hds
      -- what is left begins with the line feed, or the text ends within the comment
      have hpiece := Piece.comment (not_mem_takeWhile_ne '\n' note) hstop
      rwa [List.takeWhile_append_dropWhile] at hpiece
    · split at h
      · next hquote =>
        split at h
        · cases h
        · next d ds hdrop =>
          cases h
          have hall := List.takeWhile_append_dropWhile (p := (· != c)) (l := cs)
          -- the run ends only at the quote that began it
          rw [hdrop, head_dropWhile_ne hdrop] at hall
          have hpiece : Piece (c :: (cs.takeWhile (· != c) ++ c :: rest)) _ rest :=
            .quoted hquote (not_mem_takeWhile_ne c cs)
          rwa [hall] at hpiece
      · split at h
        · next hdigit =>
          cases h
          have hpiece :
              Piece (c :: (cs.takeWhile continuesNumber ++ cs.dropWhile continuesNumber)) _ _ :=
            .number hdigit fun d hd => List.mem_takeWhile_imp hd
          rwa [List.takeWhile_append_dropWhile] at hpiece
        · split at h
          · next hword =>
            cases h
            have hpiece :
                Piece (c :: (cs.takeWhile continuesWord ++ cs.dropWhile continuesWord)) _ _ :=
              .word hword fun d hd => List.mem_takeWhile_imp hd
            rwa [List.takeWhile_append_dropWhile] at hpiece
          · split at h
            · next hread =>
              cases h
              rw [Mark.eq_of_read? hread]
              exact .mark _
            · cases h

/-- A step fails at a quote that is not closed and at a character that starts nothing. -/
theorem flaw_of_readPiece {f : LexicalFault} (h : readPiece c cs = .error f) :
    Flaw (c :: cs) f := by
  unfold readPiece at h
  split at h
  · cases h
  · next hblank =>
    split at h
    · cases h
    · next hcomment =>
      split at h
      · next hquote =>
        split at h
        · next hdrop =>
          cases h
          -- everything was passed over, so the quote does not come again
          refine .unterminated hquote fun hmem => ?_
          have hne := List.dropWhile_eq_nil_iff.1 hdrop c hmem
          simp at hne
        · cases h
      · next hquote =>
        split at h
        · cases h
        · next hdigit =>
          split at h
          · cases h
          · next hword =>
            split at h
            · cases h
            · next hread =>
              cases h
              exact .unexpected (Bool.eq_false_iff.2 hblank) hcomment hquote
                (Bool.eq_false_iff.2 hdigit) (Bool.eq_false_iff.2 hword)
                (Mark.read?_eq_none_iff.1 hread)

/-- A piece takes at least one character. -/
theorem Piece.length_lt (h : Piece cs t rest) : rest.length < cs.length := by
  cases h with
  | blank => exact Nat.lt_succ_self _
  | mark m =>
    have hpos : 0 < m.text.toList.length := by cases m <;> decide
    rw [List.length_append]
    omega
  | _ =>
    simp only [List.length_cons, List.length_append]
    omega

/-! ### All pieces -/

/-- Fuel beyond the length of the text does not matter. -/
theorem tokensWithin_of_le {fuel : Nat} (h : cs.length ≤ fuel) :
    tokensWithin fuel cs = tokens cs := by
  -- both amounts of fuel vary, since a piece takes more than one character
  suffices hfuel : ∀ (n fuel fuel' : Nat) (cs : List Char), cs.length ≤ n → n ≤ fuel → n ≤ fuel' →
      tokensWithin fuel cs = tokensWithin fuel' cs from
    hfuel cs.length fuel cs.length cs (Nat.le_refl _) h (Nat.le_refl _)
  intro n
  induction n with
  | zero =>
    intro fuel fuel' cs hcs _ _
    rw [List.length_eq_zero_iff.1 (Nat.le_zero.1 hcs)]
    cases fuel <;> cases fuel' <;> rfl
  | succ n ih =>
    intro fuel fuel' cs hcs hfuel hfuel'
    cases cs with
    | nil => cases fuel <;> cases fuel' <;> rfl
    | cons c cs =>
      obtain ⟨fuel, rfl⟩ := Nat.exists_eq_add_of_le' (Nat.le_of_add_left_le hfuel)
      obtain ⟨fuel', rfl⟩ := Nat.exists_eq_add_of_le' (Nat.le_of_add_left_le hfuel')
      rw [tokensWithin_cons, tokensWithin_cons]
      cases hread : readPiece c cs with
      | error f => rfl
      | ok out =>
        obtain ⟨t, rest⟩ := out
        have hlt := (piece_of_readPiece hread).length_lt
        rw [List.length_cons] at hlt hcs
        dsimp only
        rw [ih fuel fuel' rest (by omega) (by omega) (by omega)]

/-- The tokens of a text are its first piece and the tokens of the rest. -/
theorem tokens_cons (c : Char) (cs : List Char) :
    tokens (c :: cs) =
      match readPiece c cs with
      | .error f => .error f
      | .ok (t, rest) => (tokens rest).map (t.toList ++ ·) := by
  rw [tokens, List.length_cons, tokensWithin_cons]
  cases hread : readPiece c cs with
  | error f => rfl
  | ok out =>
    obtain ⟨t, rest⟩ := out
    have hlt := (piece_of_readPiece hread).length_lt
    rw [List.length_cons] at hlt
    dsimp only
    rw [tokensWithin_of_le (by omega)]
    cases tokens rest <;> rfl

/-- A text has no tokens, begins with a fault, or begins with a piece. -/
theorem piece_induction {P : List Char → Except LexicalFault (List Token) → Prop}
    (nil : P [] (.ok []))
    (flaw : ∀ c cs f, readPiece c cs = .error f → P (c :: cs) (.error f))
    (piece : ∀ c cs t rest, readPiece c cs = .ok (t, rest) → P rest (tokens rest) →
      P (c :: cs) ((tokens rest).map (t.toList ++ ·))) (cs : List Char) : P cs (tokens cs) := by
  -- on the length of the text, as a piece may take many characters
  induction hlength : cs.length using Nat.strongRecOn generalizing cs with
  | ind n ih =>
    cases cs with
    | nil => exact nil
    | cons c cs =>
      rw [tokens_cons]
      cases hread : readPiece c cs with
      | error f => exact flaw c cs f hread
      | ok out =>
        obtain ⟨t, rest⟩ := out
        have hlt := (piece_of_readPiece hread).length_lt
        exact piece c cs t rest hread (ih rest.length (hlength ▸ hlt) rest rfl)

theorem Piece.nameText {text : String} (h : Piece cs (some (.word text)) rest) :
    Motif.NameText text := by
  cases h with
  | word hc hrun =>
    rw [Motif.NameText, String.toList_ofList, isIdentifier, Bool.and_eq_true, List.all_eq_true]
    exact ⟨hc, hrun⟩

/-- The words of a text are identifiers. -/
theorem nameText_of_mem_tokens {ts : List Token} {text : String} (h : tokens cs = .ok ts)
    (hmem : .word text ∈ ts) : Motif.NameText text := by
  suffices hall : ∀ ts, tokens cs = .ok ts → .word text ∈ ts → Motif.NameText text from
    hall ts h hmem
  refine piece_induction (P := fun _ out => ∀ ts, out = .ok ts → .word text ∈ ts →
    Motif.NameText text) ?_ ?_ ?_ cs
  · intro ts h hmem
    cases h
    cases hmem
  · intro c cs f _ ts h
    cases h
  · intro c cs t rest hread ih ts h hmem
    obtain ⟨others, hothers, rfl⟩ := map_eq_ok_iff.1 h
    rcases List.mem_append.1 hmem with hmem | hmem
    · obtain rfl := Option.mem_toList.1 hmem
      exact (piece_of_readPiece hread).nameText
    · exact ih others hothers hmem

end MotifQuery.Cypher
