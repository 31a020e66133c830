import MotifQuery.Proofs.Xml.Tags

/-!
# `MotifQuery.Proofs.Xml.Steps`: the reader step by step

Every cut leaves fewer bytes than there were (`cutTag_length`, `readBang_length`), so a
document never takes more steps than it has bytes; with more steps than bytes, how many
there are makes no difference (`readContent_fuel`).

A step goes from the bytes before a tag to the tag (`readContent_markup`), or past a tag:
one that opens or stands alone (`readTag_tag`), one that closes (`readTag_slash`), an
instruction (`readTag_question`) or the rest (`readTag_bang`). What follows the tag plays no
part in what is made of it.
-/

set_option autoImplicit false

namespace MotifQuery.Xml

open Text

/-! ### What a cut leaves -/

theorem cutAt_length {b : UInt8} {bs taken rest : Bytes} (h : cutAt b bs = (taken, some rest)) :
    rest.length < bs.length := by
  unfold cutAt at h
  have hdrop := (List.dropWhile_suffix (l := bs) (· != b)).length_le
  split at h
  · cases h
  · next hcons =>
    cases h
    rw [hcons, List.length_cons] at hdrop
    exact hdrop

theorem cutTag_length {quote : Option UInt8} {bs taken rest : Bytes}
    (h : cutTag quote bs = (taken, some rest)) : rest.length < bs.length := by
  induction bs generalizing quote taken with
  | nil => cases h
  | cons b bs ih =>
    unfold cutTag at h
    dsimp only at h
    split at h
    · cases h
      exact Nat.lt_succ_self _
    · obtain ⟨-, hrest⟩ := Prod.mk.inj h
      exact Nat.lt_succ_of_lt (ih (Prod.ext rfl hrest))

theorem cutWhen_length {done : Bytes → Bool} {seen bs taken rest : Bytes}
    (h : cutWhen done seen bs = some (taken, rest)) : rest.length < bs.length := by
  induction bs generalizing seen with
  | nil => cases h
  | cons b bs ih =>
    rw [cutWhen] at h
    split at h
    · cases h
      exact Nat.lt_succ_self _
    · exact Nat.lt_succ_of_lt (ih h)

theorem readBang_length {bs rest : Bytes} {event : Event} (h : readBang bs = some (event, rest)) :
    rest.length < bs.length := by
  unfold readBang at h
  -- each of the three kinds of tags ends at a cut
  repeat' split at h
  all_goals first
    | cases h; done
    | cases h; exact cutWhen_length ‹_›

/-! ### Steps of the reader -/

section
variable {broken : Bool} {n m : Nat} {opened : List Bytes} {bs : Bytes}

/-- One step before a tag, given that the steps after it agree. -/
theorem readContent_congr
    (h : ∀ opened rest, rest.length < bs.length →
      readTag broken n opened rest = readTag broken m opened rest) :
    readContent broken (n + 1) opened bs = readContent broken (m + 1) opened bs := by
  have hdrop := (List.dropWhile_suffix (l := bs) isSpace).length_le
  rw [readContent, readContent]
  cases hbs : bs.dropWhile isSpace with
  | nil => rfl
  | cons b rest =>
    rw [hbs] at hdrop
    dsimp only
    split
    · exact h opened rest hdrop
    · rcases hcut : cutAt (byte '<') (b :: rest) with ⟨content, _ | rest⟩
      · rfl
      · dsimp only
        rw [h opened rest (Nat.lt_of_lt_of_le (cutAt_length hcut) hdrop)]

/-- One step within a tag, given that the steps after it agree. -/
theorem readTag_congr
    (h : ∀ opened rest, rest.length < bs.length →
      readContent broken n opened rest = readContent broken m opened rest) :
    readTag broken (n + 1) opened bs = readTag broken (m + 1) opened bs := by
  cases bs with
  | nil => rfl
  | cons b bs =>
    rw [readTag, readTag]
    split
    · -- a comment, character data or a document type
      rcases hbang : readBang (b :: bs) with _ | ⟨event, rest⟩
      · rfl
      · dsimp only
        rw [h opened rest (readBang_length hbang)]
    · split
      · -- a closing tag
        rcases hcut : cutAt (byte '>') bs with ⟨name, _ | rest⟩
        · cases opened <;> rfl
        · cases opened with
          | nil => rfl
          | cons expected opened =>
            dsimp only
            rw [h opened rest (Nat.lt_succ_of_lt (cutAt_length hcut))]
      · split
        · -- a processing instruction
          rcases hcut : cutAt (byte '>') (b :: bs) with ⟨content, next⟩
          dsimp only
          cases questionEvent? content with
          | none => rfl
          | some event =>
            cases next with
            | none => rfl
            | some rest =>
              dsimp only
              rw [h opened rest (cutAt_length hcut)]
        · -- an opening or standing tag
          rcases hcut : cutTag none (b :: bs) with ⟨content, _ | rest⟩
          · rfl
          · dsimp only
            rw [h _ rest (cutTag_length hcut)]

/-- More steps than bytes are enough. -/
theorem read_fuel (hn : bs.length < n) (hm : bs.length < m) :
    readContent broken n opened bs = readContent broken m opened bs ∧
      readTag broken n opened bs = readTag broken m opened bs := by
  -- each step leaves fewer bytes, for either number of steps
  induction n generalizing m opened bs with
  | zero => exact absurd hn (Nat.not_lt_zero _)
  | succ n ih =>
    cases m with
    | zero => exact absurd hm (Nat.not_lt_zero _)
    | succ m =>
      exact ⟨readContent_congr fun opened rest h => (ih (by omega) (by omega)).2,
        readTag_congr fun opened rest h => (ih (by omega) (by omega)).1⟩

theorem readContent_fuel (hn : bs.length < n) (hm : bs.length < m) :
    readContent broken n opened bs = readContent broken m opened bs :=
  (read_fuel hn hm).1

end

/-! ### Before a tag -/

/-- The events of the bytes before a tag: a text, unless all are blank. -/
def textEvents (content : Bytes) : List Event :=
  let content := content.dropWhile isSpace
  if content.isEmpty then []
  else [.text (((decode? (dropEnd isSpace content)).bind unescape?).map String.ofList)]

/-- Puts events before the others. -/
def Reading.prepend (es : List Event) (r : Reading) : Reading :=
  { r with events := es ++ r.events }

theorem textEvents_blank {content : Bytes} (h : ∀ b ∈ content, isSpace b = true) :
    textEvents content = [] := by
  rw [textEvents, List.dropWhile_eq_nil_iff.2 h]
  rfl

section
variable {broken : Bool} (fuel : Nat) (opened : List Bytes) (rest : Bytes)

theorem readContent_markup {content : Bytes} (h : byte '<' ∉ content) :
    readContent broken (fuel + 1) opened (content ++ byte '<' :: rest)
      = (readTag broken fuel opened rest).prepend (textEvents content) := by
  have hstop : isSpace (byte '<') = false := rfl
  have hblanks : (content ++ byte '<' :: rest).dropWhile isSpace
      = content.dropWhile isSpace ++ byte '<' :: rest := by
    rw [List.dropWhile_append]
    split
    · next hempty =>
      rw [List.isEmpty_iff.1 hempty, List.dropWhile_cons, hstop, if_neg Bool.false_ne_true]
      rfl
    · rfl
  have hmarkup : byte '<' ∉ content.dropWhile isSpace := fun hmem =>
    h (List.dropWhile_subset _ hmem)
  have hcut := cutAt_append hmarkup rest
  rw [readContent, hblanks, textEvents]
  -- blanks before the tag are no text
  cases hcontent : content.dropWhile isSpace with
  | nil =>
    rw [List.nil_append]
    dsimp only
    rw [beq_self_eq_true, if_pos rfl]
    rfl
  | cons b bs =>
    rw [hcontent] at hmarkup hcut
    have hb : (b == byte '<') = false :=
      beq_eq_false_iff_ne.2 (List.ne_of_not_mem_cons hmarkup).symm
    rw [List.cons_append] at hcut ⊢
    dsimp only
    rw [hb, if_neg Bool.false_ne_true, hcut]
    rfl

/-! ### Past a tag -/

theorem readTag_tag {tag : Bytes} (h : IsTag tag) :
    readTag broken (fuel + 1) opened (tag ++ byte '>' :: rest)
      = (readContent broken fuel ((tagEvent tag).2.toList ++ opened) rest).cons
          (tagEvent tag).1 := by
  obtain ⟨b, bs, rfl, hbang, hslash, hquestion⟩ := h.starts
  have hcut := cutTag_part h.whole rest
  rw [List.cons_append] at hcut ⊢
  rw [readTag, if_neg (by simpa using hbang), if_neg (by simpa using hslash),
    if_neg (by simpa using hquestion), hcut]

/-- A name without blanks is taken as it stands. -/
theorem closingName_of_not_blank {name : Bytes} (h : ∀ b ∈ name, isAsciiBlank b = false) :
    closingName name = name := by
  have hdrop : dropEnd isAsciiBlank name = name := by
    unfold dropEnd
    rcases List.eq_nil_or_concat name with rfl | ⟨init, b, rfl⟩
    · rfl
    · rw [List.concat_eq_append] at h ⊢
      have hb := h b (List.mem_append_right init List.mem_cons_self)
      rw [List.reverse_concat, List.dropWhile_cons, hb, if_neg Bool.false_ne_true,
        List.reverse_cons, List.reverse_reverse]
  unfold closingName
  rw [hdrop]
  dsimp only
  split <;> rfl

/-- A closing tag has the name of the last tag that is open. -/
theorem readTag_slash {name : Bytes} (h : byte '>' ∉ name) :
    readTag broken (fuel + 1) opened (byte '/' :: (name ++ byte '>' :: rest))
      = if opened.head? = some (closingName name) then
          (readContent broken fuel opened.tail rest).cons
            (.closing (stringLossy (closingName name)))
        else ⟨[], true⟩ := by
  have hbang : (byte '/' == byte '!') = false := rfl
  rw [readTag, hbang, if_neg Bool.false_ne_true, beq_self_eq_true, if_pos rfl, cutAt_append h]
  cases opened with
  | nil => rfl
  | cons expected opened =>
    dsimp only
    by_cases hname : closingName name = expected
    · rw [hname, beq_self_eq_true, if_pos rfl, if_pos (List.head?_cons), List.tail_cons]
    · have hhead : (expected :: opened).head? ≠ some (closingName name) := by
        rw [List.head?_cons, Ne, Option.some_inj]
        exact Ne.symm hname
      rw [beq_eq_false_iff_ne.2 hname, if_neg Bool.false_ne_true, if_neg hhead]

theorem readTag_question {content : Bytes} (h : byte '>' ∉ content) :
    readTag broken (fuel + 1) opened (byte '?' :: (content ++ byte '>' :: rest))
      = match questionEvent? (byte '?' :: content) with
        | some event => (readContent broken fuel opened rest).cons event
        | none => ⟨[], true⟩ := by
  have hbang : (byte '?' == byte '!') = false := rfl
  have hslash : (byte '?' == byte '/') = false := rfl
  have hcut := cutAt_append (List.not_mem_cons_of_ne_of_not_mem (by decide) h :
    byte '>' ∉ byte '?' :: content) rest
  rw [List.cons_append] at hcut
  rw [readTag, hbang, hslash, if_neg Bool.false_ne_true, if_neg Bool.false_ne_true,
    beq_self_eq_true, if_pos rfl, hcut]
  dsimp only
  cases questionEvent? (byte '?' :: content) <;> rfl

/-- What comes after the cut plays no part in it. -/
theorem cutWhen_append {done : Bytes → Bool} {seen bs taken left : Bytes}
    (h : cutWhen done seen bs = some (taken, left)) :
    cutWhen done seen (bs ++ rest) = some (taken, left ++ rest) := by
  induction bs generalizing seen with
  | nil => cases h
  | cons b bs ih =>
    rw [List.cons_append]
    rw [cutWhen] at h ⊢
    split at h
    · next hdone =>
      cases h
      rw [if_pos hdone]
    · next hdone =>
      rw [if_neg hdone]
      exact ih h

theorem readBang_append {bs left : Bytes} {event : Event} (h : readBang bs = some (event, left)) :
    readBang (bs ++ rest) = some (event, left ++ rest) := by
  have htail : ∀ b, bs.tail.head? = some b → (bs ++ rest).tail.head? = some b := by
    intro b hb
    cases bs with
    | nil => cases hb
    | cons c cs =>
      cases cs with
      | nil => cases hb
      | cons d ds => exact hb
  unfold readBang at h ⊢
  cases hhead : bs.tail.head? with
  | none =>
    rw [hhead] at h
    cases h
  | some b =>
    rw [hhead] at h
    rw [htail b hhead]
    -- every kind of tag ends at a cut, which stays the same
    have hcut : ∀ done taken left, cutWhen done [] bs = some (taken, left) →
        cutWhen done [] (bs ++ rest) = some (taken, left ++ rest) := fun _ _ _ =>
      cutWhen_append rest
    grind

end

end MotifQuery.Xml
