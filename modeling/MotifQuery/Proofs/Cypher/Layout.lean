import MotifQuery.Cypher.Token
import MotifQuery.Proofs.Motif.Grammar

/-!
# `MotifQuery.Proofs.Cypher.Layout`: the texts of a row of tokens

A row of tokens may be laid out in many ways: blanks and comments stand between tokens, and
nothing need stand there unless the second token would run on from the first. `Layout`
relates the tokens to their texts; `tokens_of_layout` says that every such text is read as
these tokens.
-/

set_option autoImplicit false

namespace MotifQuery.Cypher

open Text

/-! ### Texts -/

/-- What may stand before a token: blanks, and comments with their line feeds. -/
inductive Filler : List Char → Prop where
  | nil : Filler []
  | blank {c : Char} {cs : List Char} (hc : isBlank c = true) (h : Filler cs) : Filler (c :: cs)
  | comment {note cs : List Char} (hnote : '\n' ∉ note) (h : Filler cs) :
      Filler ('/' :: '/' :: (note ++ '\n' :: cs))

/-- What may stand after the last token: no line feed need end the last comment. -/
inductive Trailer : List Char → Prop where
  | filler {cs : List Char} (h : Filler cs) : Trailer cs
  | comment {cs note : List Char} (h : Filler cs) (hnote : '\n' ∉ note) :
      Trailer (cs ++ '/' :: '/' :: note)

namespace Token

/-- Tokens that have a text. -/
def Proper : Token → Prop
  | word text => Motif.NameText text
  | number text => text ≠ "" ∧ ∀ c ∈ text.toList, isAsciiDigit c = true
  | quoted quote text => (quote = '"' ∨ quote = '\'') ∧ quote ∉ text.toList
  | mark _ => True

/-- Would the character, directly after the token, be read with it? -/
def runsOn : Token → Char → Bool
  | word _, c => continuesWord c
  | number _, c => continuesNumber c
  | quoted _ _, _ => false
  | mark .dash, c => c == '>'
  | mark .less, c => c == '-' || c == '>' || c == '='
  | mark .greater, c => c == '='
  | mark _, _ => false

end Token

/-- The texts of a row of tokens. -/
inductive Layout : List Token → List Char → Prop where
  | done {cs : List Char} (h : Trailer cs) : Layout [] cs
  | token {t : Token} {ts : List Token} {gap rest : List Char} (hgap : Filler gap)
      (ht : t.Proper) (hnext : ∀ c ∈ rest.head?, t.runsOn c = false) (h : Layout ts rest) :
      Layout (t :: ts) (gap ++ (t.lexeme ++ rest))

/-- A token before a text that can be seen not to run on from it. -/
theorem Layout.step {t : Token} {ts : List Token} {gap rest : List Char} (h : Layout ts rest)
    (hgap : Filler gap) (ht : t.Proper) (hnext : rest.head?.all (fun c => !t.runsOn c) = true) :
    Layout (t :: ts) (gap ++ (t.lexeme ++ rest)) := by
  refine .token hgap ht (fun c hc => ?_) h
  rw [Option.mem_def.1 hc, Option.all_some, Bool.not_eq_true'] at hnext
  exact hnext

/-! ### Reading -/

/-- The text is read as these tokens, whatever fuel beyond its length there is. -/
def Lexes (cs : List Char) (ts : List Token) : Prop :=
  ∀ fuel, cs.length ≤ fuel → tokensWithin fuel cs = .ok ts

theorem lexes_nil : Lexes [] [] := by
  intro fuel _
  cases fuel <;> rfl

/-- One piece is read, and then the rest. -/
theorem tokensWithin_cons (fuel : Nat) (c : Char) (cs : List Char) :
    tokensWithin (fuel + 1) (c :: cs) =
      match readPiece c cs with
      | .error fault => .error fault
      | .ok (token, rest) =>
        match tokensWithin fuel rest with
        | .error fault => .error fault
        | .ok tokens => .ok (token.toList ++ tokens) := by
  exact rfl

theorem Lexes.piece {c : Char} {cs rest : List Char} {t : Option Token} {ts : List Token}
    (hread : readPiece c cs = .ok (t, rest)) (hlength : rest.length ≤ cs.length)
    (h : Lexes rest ts) : Lexes (c :: cs) (t.toList ++ ts) := by
  intro fuel hfuel
  rw [List.length_cons] at hfuel
  obtain ⟨fuel, rfl⟩ : ∃ n, fuel = n + 1 := ⟨fuel - 1, by omega⟩
  rw [tokensWithin_cons, hread]
  dsimp only
  rw [h fuel (by omega)]

theorem isBlank_eq_false_of_quote {c : Char} (h : c = '"' ∨ c = '\'') : isBlank c = false := by
  rcases h with rfl | rfl <;> rfl

theorem readPiece_blank {c : Char} (hc : isBlank c = true) (cs : List Char) :
    readPiece c cs = .ok (none, cs) := by
  rw [readPiece, if_pos hc]

/-- A comment ends before its line feed. -/
theorem readPiece_comment {note rest : List Char} (hnote : '\n' ∉ note)
    (hrest : ∀ c ∈ rest.head?, c = '\n') :
    readPiece '/' ('/' :: (note ++ rest)) = .ok (none, rest) := by
  have hrun : ∀ c ∈ '/' :: note, (c != '\n') = true := by
    intro c hmem
    rw [bne_iff_ne]
    rintro rfl
    rcases List.mem_cons.1 hmem with heq | hmem
    · exact absurd heq (by decide)
    · exact hnote hmem
  have hdrop : ('/' :: (note ++ rest)).dropWhile (· != '\n') = rest := by
    rw [← List.cons_append]
    exact dropWhile_run hrun fun c hc => by
      rw [hrest c hc]
      rfl
  rw [readPiece, if_neg (by decide), if_pos ⟨rfl, rfl⟩, hdrop]

theorem Filler.lexes {gap rest : List Char} {ts : List Token} (hgap : Filler gap)
    (h : Lexes rest ts) : Lexes (gap ++ rest) ts := by
  induction hgap with
  | nil => exact h
  | @blank c cs hc _ ih => exact Lexes.piece (readPiece_blank hc _) (Nat.le_refl _) ih
  | @comment note cs hnote _ ih =>
    -- the line feed is left over by the comment and read as a blank
    have hline : Lexes ('\n' :: (cs ++ rest)) ts :=
      Lexes.piece (readPiece_blank rfl _) (Nat.le_refl _) ih
    have hread : readPiece '/' ('/' :: (note ++ '\n' :: (cs ++ rest)))
        = .ok (none, '\n' :: (cs ++ rest)) :=
      readPiece_comment hnote fun c hc => (Option.mem_some_iff.1 hc).symm
    have htext : '/' :: '/' :: (note ++ '\n' :: cs) ++ rest
        = '/' :: '/' :: (note ++ '\n' :: (cs ++ rest)) := by simp
    rw [htext]
    refine Lexes.piece hread ?_ hline
    simp only [List.length_cons, List.length_append]
    omega

theorem Trailer.lexes {cs : List Char} (h : Trailer cs) : Lexes cs [] := by
  cases h with
  | filler h =>
    have hfiller := h.lexes lexes_nil
    rwa [List.append_nil] at hfiller
  | @comment cs note h hnote =>
    refine h.lexes ?_
    have hread : readPiece '/' ('/' :: (note ++ [])) = .ok (none, []) :=
      readPiece_comment hnote fun c hc => nomatch hc
    rw [List.append_nil] at hread
    exact Lexes.piece hread (Nat.zero_le _) lexes_nil

/-! ### Tokens -/

/-- No digit starts a word. -/
theorem startsWord_eq_false_of_digit {c : Char} (h : isAsciiDigit c = true) :
    startsWord c = false := by
  simp only [isAsciiDigit, Bool.and_eq_true, decide_eq_true_eq] at h
  have hlow : 48 ≤ c.toNat := h.1
  have hhigh : c.toNat ≤ 57 := h.2
  have hle : ∀ a : Char, 57 < a.toNat → ¬ a ≤ c := fun a ha hac =>
    absurd (Nat.le_trans (show a.toNat ≤ c.toNat from hac) hhigh) (Nat.not_le.2 ha)
  have hne : c ≠ '_' := by
    rintro rfl
    exact absurd hhigh (by decide)
  simp [startsWord, isAsciiLetter, hle 'a' (by decide), hle 'A' (by decide), hne]

theorem readPiece_word {text : String} {rest : List Char} (h : Motif.NameText text)
    (hnext : ∀ c ∈ rest.head?, continuesWord c = false) :
    ∃ c cs, text.toList = c :: cs ∧
      readPiece c (cs ++ rest) = .ok (some (.word text), rest) := by
  cases htext : text.toList with
  | nil => exact absurd htext h.ne_nil
  | cons c cs =>
    have hall : ∀ d ∈ c :: cs, continuesWord d = true := fun d hd =>
      Motif.continuesIdentifier_of_mem h (by rw [htext]; exact hd)
    have hstart : startsWord c = true := by
      rw [Motif.NameText, htext, isIdentifier, Bool.and_eq_true] at h
      exact h.1
    have hblank := Motif.isBlank_eq_false_of_continues (hall c List.mem_cons_self)
    -- a character that begins a word begins no blank, comment, text or number
    have hne : ∀ d, startsWord d = false → c ≠ d := by
      rintro d hd rfl
      rw [hstart] at hd
      cases hd
    have hdigit : isAsciiDigit c = false := by
      by_contra hdigit
      rw [Bool.not_eq_false] at hdigit
      rw [startsWord_eq_false_of_digit hdigit] at hstart
      cases hstart
    have hquote : ¬ (c = '"' ∨ c = '\'') := by
      rintro (heq | heq)
      · exact hne '"' rfl heq
      · exact hne '\'' rfl heq
    have hrun := fun d hd => hall d (List.mem_cons_of_mem c hd)
    refine ⟨c, cs, rfl, ?_⟩
    rw [readPiece, hblank, if_neg Bool.false_ne_true, if_neg fun h => hne '/' rfl h.1,
      if_neg hquote, hdigit, if_neg Bool.false_ne_true, if_pos hstart, takeWhile_run hrun hnext,
      dropWhile_run hrun hnext, ← htext, String.ofList_toList]

theorem readPiece_number {text : String} {rest : List Char} (hne : text ≠ "")
    (hdigits : ∀ c ∈ text.toList, isAsciiDigit c = true)
    (hnext : ∀ c ∈ rest.head?, continuesNumber c = false) :
    ∃ c cs, text.toList = c :: cs ∧
      readPiece c (cs ++ rest) = .ok (some (.number text), rest) := by
  cases htext : text.toList with
  | nil => exact absurd (String.toList_injective htext) hne
  | cons c cs =>
    rw [htext] at hdigits
    have hdigit := hdigits c List.mem_cons_self
    have hnot : ∀ d, isAsciiDigit d = false → c ≠ d := by
      rintro d hd rfl
      rw [hdigit] at hd
      cases hd
    have hblank : isBlank c = false :=
      Motif.isBlank_eq_false_of_continues (by simp [continuesIdentifier, hdigit])
    have hquote : ¬ (c = '"' ∨ c = '\'') := by
      rintro (heq | heq)
      · exact hnot '"' rfl heq
      · exact hnot '\'' rfl heq
    have hrun : ∀ d ∈ cs, continuesNumber d = true := fun d hd => by
      rw [continuesNumber, hdigits d (List.mem_cons_of_mem c hd), Bool.true_or]
    refine ⟨c, cs, rfl, ?_⟩
    rw [readPiece, hblank, if_neg Bool.false_ne_true, if_neg fun h => hnot '/' rfl h.1,
      if_neg hquote, if_pos hdigit, takeWhile_run hrun hnext, dropWhile_run hrun hnext, ← htext,
      String.ofList_toList]

/-- A quoted text ends at the next quote of its kind. -/
theorem readPiece_quoted {quote : Char} {text : String} (rest : List Char)
    (hquote : quote = '"' ∨ quote = '\'') (h : quote ∉ text.toList) :
    readPiece quote (text.toList ++ quote :: rest) = .ok (some (.quoted quote text), rest) := by
  have hrun : ∀ c ∈ text.toList, (c != quote) = true := fun c hc => by
    rw [bne_iff_ne]
    rintro rfl
    exact h hc
  have hstop : ∀ c ∈ (quote :: rest).head?, (c != quote) = false := fun c hc => by
    rw [← Option.mem_some_iff.1 hc, bne_self_eq_false]
  have hslash : quote ≠ '/' := by rcases hquote with rfl | rfl <;> decide
  rw [readPiece, isBlank_eq_false_of_quote hquote, if_neg Bool.false_ne_true,
    if_neg fun h => hslash h.1, if_pos hquote, takeWhile_run hrun hstop, dropWhile_run hrun hstop]
  dsimp only
  rw [String.ofList_toList]

/-- A mark is read in full, as nothing follows that would make it longer. -/
theorem Mark.read?_text (m : Mark) {rest : List Char}
    (hnext : ∀ c ∈ rest.head?, (Token.mark m).runsOn c = false) :
    Mark.read? (m.text.toList ++ rest) = some (m, rest) := by
  cases rest with
  | nil => cases m <;> rfl
  | cons d rest =>
    have hd := hnext d rfl
    -- only three marks begin a longer one
    cases m with
    | dash =>
      have hne : d ≠ '>' := by simpa [Token.runsOn] using hd
      show Mark.read? ('-' :: d :: rest) = _
      simp [Mark.read?, hne]
    | less =>
      have hne : d ≠ '-' ∧ d ≠ '>' ∧ d ≠ '=' := by simpa [Token.runsOn, and_assoc] using hd
      show Mark.read? ('<' :: d :: rest) = _
      simp [Mark.read?, hne]
    | greater =>
      have hne : d ≠ '=' := by simpa [Token.runsOn] using hd
      show Mark.read? ('>' :: d :: rest) = _
      simp [Mark.read?, hne]
    | _ => rfl

theorem readPiece_mark (m : Mark) {rest : List Char}
    (hnext : ∀ c ∈ rest.head?, (Token.mark m).runsOn c = false) :
    ∃ c cs, m.text.toList = c :: cs ∧
      readPiece c (cs ++ rest) = .ok (some (.mark m), rest) := by
  have hhead : ∃ c cs, m.text.toList = c :: cs ∧ isBlank c = false ∧ c ≠ '/' ∧
      ¬ (c = '"' ∨ c = '\'') ∧ isAsciiDigit c = false ∧ startsWord c = false := by
    cases m <;> exact ⟨_, _, rfl, by decide⟩
  obtain ⟨c, cs, htext, hblank, hslash, hquote, hdigit, hword⟩ := hhead
  have hread := m.read?_text hnext
  rw [htext, List.cons_append] at hread
  refine ⟨c, cs, htext, ?_⟩
  rw [readPiece, hblank, if_neg Bool.false_ne_true, if_neg fun h => hslash h.1, if_neg hquote,
    hdigit, if_neg Bool.false_ne_true, hword, if_neg Bool.false_ne_true, hread]

/-- A token is read in full, as nothing follows that would run on from it. -/
theorem readPiece_token {t : Token} {rest : List Char} (ht : t.Proper)
    (hnext : ∀ c ∈ rest.head?, t.runsOn c = false) :
    ∃ c cs, t.lexeme = c :: cs ∧ readPiece c (cs ++ rest) = .ok (some t, rest) := by
  cases t with
  | word text => exact readPiece_word ht hnext
  | number text => exact readPiece_number ht.1 ht.2 hnext
  | quoted quote text =>
    refine ⟨quote, text.toList ++ [quote], rfl, ?_⟩
    rw [List.append_assoc]
    exact readPiece_quoted rest ht.1 ht.2
  | mark m => exact readPiece_mark m hnext

theorem Layout.lexes {ts : List Token} {cs : List Char} (h : Layout ts cs) : Lexes cs ts := by
  induction h with
  | done h => exact h.lexes
  | @token t ts gap rest hgap ht hnext _ ih =>
    refine hgap.lexes ?_
    obtain ⟨c, cs, hlexeme, hread⟩ := readPiece_token ht hnext
    rw [hlexeme]
    exact Lexes.piece hread (by simp) ih

/-- Every text of a row of tokens is read as these tokens. -/
theorem tokens_of_layout {ts : List Token} {cs : List Char} (h : Layout ts cs) :
    tokens cs = .ok ts :=
  h.lexes _ (Nat.le_refl _)

end MotifQuery.Cypher
