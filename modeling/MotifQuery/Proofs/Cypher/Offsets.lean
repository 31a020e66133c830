import MotifQuery.Proofs.Cypher.Pieces
import MotifQuery.Proofs.Text.Utf8

/-!
# `MotifQuery.Proofs.Cypher.Offsets`: tokens read at byte offsets

A query text lies in memory as bytes, and a loop that reads tokens from it looks for the next
stop, a number of bytes, and cuts the text there. A cut inside a character is impossible
(`Text.cut?_eq_some_iff`). `turn` is one turn of this loop and `Run` the loop itself: it has an
outcome for a text only when it ends and every cut on the way is possible.

`turn_eq`: every cut is possible, and a turn reads the piece that `readPiece` reads. Since a turn
takes at least one character, the loop ends on every text, with the tokens of that text
(`run_iff`).
-/

set_option autoImplicit false

namespace MotifQuery

namespace Text

/-! ### Byte offsets -/

/-- The number of bytes of a character. -/
def charSize (c : Char) : Nat :=
  (encodeChar c).length

/-- The number of bytes of a text. -/
def byteSize (cs : List Char) : Nat :=
  (encode cs).length

/-- What stands before and after the first `n` bytes of a text, if no character is cut through. -/
def cut? (n : Nat) : List Char → Option (List Char × List Char)
  | [] => if n = 0 then some ([], []) else none
  | c :: cs =>
    if n = 0 then some ([], c :: cs)
    else if n < charSize c then none
    else (cut? (n - charSize c) cs).map fun parts => (c :: parts.1, parts.2)

/-- The number of bytes before the first character that satisfies `p`. -/
def offset? (p : Char → Bool) : List Char → Option Nat
  | [] => none
  | c :: cs => if p c then some 0 else (offset? p cs).map (charSize c + ·)

theorem byteSize_cons (c : Char) (cs : List Char) :
    byteSize (c :: cs) = charSize c + byteSize cs := by
  rw [byteSize, encode_cons, List.length_append, charSize, byteSize]

theorem byteSize_singleton (c : Char) : byteSize [c] = charSize c :=
  byteSize_cons c []

theorem byteSize_append (cs ds : List Char) : byteSize (cs ++ ds) = byteSize cs + byteSize ds := by
  rw [byteSize, encode_append, List.length_append, byteSize, byteSize]

theorem charSize_pos (c : Char) : 0 < charSize c := by
  have hlength := length_le_length_encode [c]
  rwa [encode_cons, show encode [] = [] from rfl, List.append_nil] at hlength

theorem cut?_byteSize_append (front back : List Char) :
    cut? (byteSize front) (front ++ back) = some (front, back) := by
  induction front with
  | nil => cases back <;> rfl
  | cons c front ih =>
    have hpos := charSize_pos c
    rw [List.cons_append, cut?, byteSize_cons, if_neg (by omega), if_neg (by omega),
      Nat.add_sub_cancel_left, ih]
    rfl

/-- A text can be cut between any two of its characters, and nowhere else. -/
theorem cut?_eq_some_iff {n : Nat} {cs front back : List Char} :
    cut? n cs = some (front, back) ↔ cs = front ++ back ∧ byteSize front = n := by
  constructor
  · intro h
    induction cs generalizing n front with
    | nil =>
      rw [cut?] at h
      split at h <;> cases h
      next hn => exact ⟨rfl, hn.symm⟩
    | cons c cs ih =>
      rw [cut?] at h
      split at h
      · next hn =>
        cases h
        exact ⟨rfl, hn.symm⟩
      · split at h
        · cases h
        · next hle =>
          -- behind this character the offset is less by its size
          obtain ⟨⟨front', back'⟩, hcut, hparts⟩ := Option.map_eq_some_iff.1 h
          cases hparts
          obtain ⟨rfl, hsize⟩ := ih hcut
          refine ⟨rfl, ?_⟩
          dsimp only
          rw [byteSize_cons]
          omega
  · rintro ⟨rfl, rfl⟩
    exact cut?_byteSize_append front back

/-- The offset of a character is the number of bytes before it. -/
theorem offset?_eq (p : Char → Bool) (cs : List Char) :
    offset? p cs =
      match cs.dropWhile (fun c => !p c) with
      | [] => none
      | _ :: _ => some (byteSize (cs.takeWhile fun c => !p c)) := by
  induction cs with
  | nil => rfl
  | cons c cs ih =>
    rw [offset?, ih, List.dropWhile_cons, List.takeWhile_cons]
    cases p c with
    | true => rfl
    | false =>
      simp only [Bool.not_false, if_true, Bool.false_eq_true, if_false, byteSize_cons]
      cases cs.dropWhile fun c => !p c <;> rfl

/-- At the first character that satisfies `p`, or at the end, a text can be cut. -/
theorem cut?_offset? (p : Char → Bool) (cs : List Char) :
    cut? ((offset? p cs).getD (byteSize cs)) cs
      = some (cs.takeWhile (fun c => !p c), cs.dropWhile fun c => !p c) := by
  rw [cut?_eq_some_iff, List.takeWhile_append_dropWhile, offset?_eq]
  refine ⟨rfl, ?_⟩
  split
  · next h =>
    have hall := List.takeWhile_append_dropWhile (p := fun c => !p c) (l := cs)
    rw [h, List.append_nil] at hall
    rw [hall, Option.getD_none]
  · rw [Option.getD_some]

end Text

namespace Cypher

open Text

/-! ### One turn -/

/-- Cuts off the characters at the start that satisfy `p`. -/
def cutRun (p : Char → Bool) (text : List Char) : Option (List Char × List Char) :=
  cut? ((offset? (fun c => !p c) text).getD (byteSize text)) text

/-- Cuts a comment off, in front of its line feed. -/
def cutComment (text : List Char) : Option (List Char) :=
  match offset? (· == '\n') text with
  | none => some []
  | some stop => (cut? stop text).map Prod.snd

/-- Cuts off the text between two quotes. -/
def cutQuoted (quote : Char) (text : List Char) :
    Option (Except LexicalFault (Option Token × List Char)) := do
  -- a quote is one byte long
  let (_, body) ← cut? 1 text
  match offset? (· == quote) body with
  | none => pure (.error .unterminated)
  | some stop =>
    let (inner, _) ← cut? stop body
    let (_, rest) ← cut? (stop + 1) body
    pure (.ok (some (.quoted quote (String.ofList inner)), rest))

/-- Cuts off the first mark of the table that the text begins with. -/
def cutMark (c : Char) (text : List Char) :
    Option (Except LexicalFault (Option Token × List Char)) :=
  match Mark.table.find? fun m => m.text.toList.isPrefixOf text with
  | none => some (.error (.unexpected c))
  | some m => (cut? (byteSize m.text.toList) text).map fun parts => .ok (some (.mark m), parts.2)

/-- One turn of the loop on a text that starts with `c`. Nothing comes of it when the text is to be
cut inside a character. -/
def turn (c : Char) (cs : List Char) : Option (Except LexicalFault (Option Token × List Char)) :=
  if isBlank c then (cut? (charSize c) (c :: cs)).map fun parts => .ok (none, parts.2)
  else if ['/', '/'].isPrefixOf (c :: cs) then
    (cutComment (c :: cs)).map fun rest => .ok (none, rest)
  else if c = '"' ∨ c = '\'' then cutQuoted c (c :: cs)
  else if isAsciiDigit c then
    (cutRun continuesNumber (c :: cs)).map fun parts =>
      .ok (some (.number (String.ofList parts.1)), parts.2)
  else if startsWord c then
    (cutRun continuesWord (c :: cs)).map fun parts =>
      .ok (some (.word (String.ofList parts.1)), parts.2)
  else cutMark c (c :: cs)

theorem cut?_first (c : Char) (cs : List Char) :
    cut? (charSize c) (c :: cs) = some ([c], cs) :=
  cut?_eq_some_iff.2 ⟨rfl, byteSize_singleton c⟩

theorem cutRun_eq {p : Char → Bool} {c : Char} (hc : p c = true) (cs : List Char) :
    cutRun p (c :: cs) = some (c :: cs.takeWhile p, cs.dropWhile p) := by
  rw [cutRun, cut?_offset?]
  simp only [Bool.not_not]
  rw [List.takeWhile_cons_of_pos hc, List.dropWhile_cons_of_pos hc]

theorem cutComment_eq (cs : List Char) :
    cutComment ('/' :: cs) = some (cs.dropWhile (· != '\n')) := by
  have hcut := cut?_offset? (· == '\n') ('/' :: cs)
  have hstop := offset?_eq (· == '\n') ('/' :: cs)
  rw [List.dropWhile_cons_of_pos rfl] at hcut hstop
  show _ = some (cs.dropWhile fun c => !(c == '\n'))
  unfold cutComment
  cases hdrop : cs.dropWhile fun c => !(c == '\n') with
  | nil =>
    rw [hdrop] at hstop
    rw [hstop]
  | cons d ds =>
    rw [hdrop] at hstop hcut
    rw [hstop] at hcut ⊢
    exact congrArg (Option.map Prod.snd) hcut

theorem cutQuoted_eq {quote : Char} (hquote : quote = '"' ∨ quote = '\'') (cs : List Char) :
    cutQuoted quote (quote :: cs) = some
      (match cs.dropWhile (· != quote) with
        | [] => .error .unterminated
        | _ :: rest =>
          .ok (some (.quoted quote (String.ofList (cs.takeWhile (· != quote)))), rest)) := by
  have hsize : charSize quote = 1 := by rcases hquote with rfl | rfl <;> rfl
  have hopen : cut? 1 (quote :: cs) = some ([quote], cs) := hsize ▸ cut?_first quote cs
  have hcut := cut?_offset? (· == quote) cs
  have hstop := offset?_eq (· == quote) cs
  have hall := List.takeWhile_append_dropWhile (p := fun c => !(c == quote)) (l := cs)
  unfold cutQuoted
  rw [hopen]
  show (match offset? (· == quote) cs with
    | none => _
    | some stop => _) = some (match cs.dropWhile fun c => !(c == quote) with
      | [] => _
      | _ :: rest => _)
  cases hdrop : cs.dropWhile fun c => !(c == quote) with
  | nil =>
    rw [hdrop] at hstop
    rw [hstop]
    rfl
  | cons d rest =>
    rw [hdrop] at hstop hcut hall
    rw [hstop, Option.getD_some] at hcut
    obtain rfl : d = quote := head_dropWhile_ne hdrop
    -- the quote is one byte, so one byte further is a boundary again
    have hclose : cut? (byteSize (cs.takeWhile fun c => !(c == d)) + 1) cs
        = some ((cs.takeWhile fun c => !(c == d)) ++ [d], rest) := by
      rw [cut?_eq_some_iff, byteSize_append, byteSize_singleton, hsize, List.append_assoc,
        List.singleton_append, hall]
      exact ⟨rfl, rfl⟩
    rw [hstop]
    dsimp only
    rw [hcut, hclose]
    rfl

theorem cutMark_eq (c : Char) (cs : List Char) :
    cutMark c (c :: cs) = some
      (match Mark.read? (c :: cs) with
        | some (m, rest) => .ok (some (.mark m), rest)
        | none => .error (.unexpected c)) := by
  unfold cutMark
  rw [Mark.find?_table]
  cases hread : Mark.read? (c :: cs) with
  | none => rfl
  | some out =>
    obtain ⟨m, rest⟩ := out
    show (cut? (byteSize m.text.toList) (c :: cs)).map _ = _
    rw [Mark.eq_of_read? hread, cut?_byteSize_append]
    rfl

theorem opensComment_iff {c : Char} {cs : List Char} :
    ['/', '/'].isPrefixOf (c :: cs) = true ↔ OpensComment c cs := by
  rw [OpensComment, List.isPrefixOf_iff_prefix, List.cons_prefix_cons, eq_comm]
  refine and_congr_right fun _ => ?_
  cases cs with
  | nil => exact iff_of_false (by decide) (by decide)
  | cons d ds =>
    rw [List.cons_prefix_cons, and_iff_left (List.nil_prefix), List.head?_cons, Option.some_inj,
      eq_comm]

theorem continuesWord_of_startsWord {c : Char} (h : startsWord c = true) :
    continuesWord c = true := by
  rw [startsWord, Bool.or_eq_true] at h
  rw [continuesWord, Bool.or_eq_true, Bool.or_eq_true]
  exact h.imp_left .inl

/-- Every cut of a turn is possible, and the turn reads a piece. -/
theorem turn_eq (c : Char) (cs : List Char) : turn c cs = some (readPiece c cs) := by
  simp only [turn, readPiece, opensComment_iff, apply_ite some]
  refine if_congr Iff.rfl ?_ (ite_congr rfl (fun hcomment => ?_) fun _ =>
    ite_congr rfl (fun hquote => ?_) fun _ => ite_congr rfl (fun hdigit => ?_) fun _ =>
      ite_congr rfl (fun hword => ?_) fun _ => ?_)
  · rw [cut?_first, Option.map_some]
  · rw [hcomment.1, cutComment_eq, Option.map_some]
  · exact cutQuoted_eq hquote cs
  · rw [cutRun_eq (by rw [continuesNumber, hdigit, Bool.true_or]), Option.map_some]
  · rw [cutRun_eq (continuesWord_of_startsWord hword), Option.map_some]
  · exact cutMark_eq c cs

/-! ### The loop -/

/-- The loop on a text and its outcome. A run ends, and all its cuts are possible. -/
inductive Run : List Char → Except LexicalFault (List Token) → Prop where
  | done : Run [] (.ok [])
  | fault {c : Char} {cs : List Char} {f : LexicalFault} (h : turn c cs = some (.error f)) :
      Run (c :: cs) (.error f)
  | piece {c : Char} {cs rest : List Char} {t : Option Token}
      {out : Except LexicalFault (List Token)} (h : turn c cs = some (.ok (t, rest)))
      (hrest : Run rest out) : Run (c :: cs) (out.map (t.toList ++ ·))

/-- The loop ends on every text without a cut inside a character, and its outcome are the tokens. -/
theorem run_iff {cs : List Char} {out : Except LexicalFault (List Token)} :
    Run cs out ↔ out = tokens cs := by
  constructor
  · intro h
    induction h with
    | done => rfl
    | fault h =>
      rw [turn_eq, Option.some_inj] at h
      rw [tokens_cons, h]
    | piece h _ ih =>
      rw [turn_eq, Option.some_inj] at h
      rw [tokens_cons, h, ih]
  · rintro rfl
    induction cs using piece_induction with
    | nil => exact .done
    | flaw c cs f hread => exact .fault (by rw [turn_eq, hread])
    | piece c cs t rest hread ih => exact .piece (by rw [turn_eq, hread]) ih

end Cypher

end MotifQuery
