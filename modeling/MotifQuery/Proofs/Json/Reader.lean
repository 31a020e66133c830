import MotifQuery.Proofs.Json.Token

/-!
# `MotifQuery.Proofs.Json.Reader`: the reader of documents reads the grammar

`Document.parse?_eq_some_iff`: a text is read as a document exactly when it is a text of that
document between blanks. One direction takes every text to its end (`readValue?_of_text`), the
other finds the text that was read (`text_of_readValue?`); both go by induction on the fuel,
over values, items and members together, as the readers call each other. The text of an
object that breaks off is no document (`Document.parse?_of_broken`).
-/

set_option autoImplicit false

namespace MotifQuery.Json

open Text Number

variable {rest : List Char}

/-! ### Texts of documents -/

theorem readValue?_spaces {before : List Char} (h : Spaces before) (fuel : Nat)
    (cs : List Char) : readValue? fuel (before ++ cs) = readValue? fuel cs := by
  cases fuel with
  | zero => rfl
  | succ fuel =>
    unfold readValue?
    rw [skipSpace_append h]

theorem readValue?_digit {c : Char} (h : isAsciiDigit c = true) (fuel : Nat) (cs : List Char) :
    readValue? (fuel + 1) (c :: cs)
      = (readNumber? false (c :: cs)).map fun out => (.number out.1, out.2) := by
  have hspace : isSpace c = false := by
    rw [← Bool.not_eq_true, isSpace_iff]
    rintro (rfl | rfl | rfl | rfl) <;> exact absurd h (by decide)
  unfold readValue?
  rw [skipSpace_cons hspace]
  split
  case h_9 => rfl
  all_goals
    next heq => cases heq <;> exact absurd h (by decide)

/-- What follows a value in its container ends a number. -/
theorem EndsNumber.of_spaces {after : List Char} {c : Char} (h : Spaces after)
    (hc : EndsNumber (c :: rest)) : EndsNumber (after ++ c :: rest) := by
  cases after with
  | nil => exact hc
  | cons d after =>
    rintro _ ⟨⟩
    rcases isSpace_iff.1 (h d List.mem_cons_self) with rfl | rfl | rfl | rfl <;> decide

theorem endsNumber_comma : EndsNumber (',' :: rest) := by
  rintro _ ⟨⟩
  decide

theorem endsNumber_closeSquare : EndsNumber (']' :: rest) := by
  rintro _ ⟨⟩
  decide

theorem endsNumber_closeCurly : EndsNumber ('}' :: rest) := by
  rintro _ ⟨⟩
  decide

/-- A document opens with a character that is neither blank nor a closing bracket. -/
theorem DocumentText.exists_cons {doc : Document} {text : List Char} (h : DocumentText doc text) :
    ∃ c cs, text = c :: cs ∧ isSpace c = false ∧ c ≠ ']' := by
  cases h with
  | unsigned hsign h =>
    obtain ⟨⟨hwhole, -⟩, -, -⟩ := h
    obtain ⟨c, cs, hcs, hc⟩ := hwhole.exists_cons
    refine ⟨c, _, by rw [hcs]; rfl, ?_, ?_⟩
    · rw [← Bool.not_eq_true, isSpace_iff]
      rintro (rfl | rfl | rfl | rfl) <;> exact absurd hc (by decide)
    · rintro rfl
      exact absurd hc (by decide)
  | _ => exact ⟨_, _, rfl, by decide, by decide⟩

/-- Items open with blanks and their first item. -/
theorem ItemsText.exists_start {items : List Document} {cs : List Char} (h : ItemsText items cs) :
    ∃ before c tail, Spaces before ∧ cs = before ++ c :: tail ∧ isSpace c = false ∧ c ≠ ']' ∧
      ItemsText items (c :: tail) := by
  cases h with
  | last hbefore h hafter =>
    obtain ⟨c, text, rfl, hspace, hclose⟩ := h.exists_cons
    exact ⟨_, c, _, hbefore, rfl, hspace, hclose, ItemsText.last .nil h hafter⟩
  | more hbefore h hafter hrest =>
    obtain ⟨c, text, rfl, hspace, hclose⟩ := h.exists_cons
    exact ⟨_, c, _, hbefore, rfl, hspace, hclose, ItemsText.more .nil h hafter hrest⟩

/-- Members open with blanks and the quote of their first key. -/
theorem MembersText.exists_start {members : List (String × Document)} {cs : List Char}
    (h : MembersText members cs) :
    ∃ before tail, Spaces before ∧ cs = before ++ '"' :: tail ∧
      MembersText members ('"' :: tail) := by
  cases h with
  | last hstart hkey hbetween hbefore h hafter =>
    exact ⟨_, _, hstart, rfl, MembersText.last .nil hkey hbetween hbefore h hafter⟩
  | more hstart hkey hbetween hbefore h hafter hrest =>
    exact ⟨_, _, hstart, rfl, MembersText.more .nil hkey hbetween hbefore h hafter hrest⟩

theorem ItemsText.spaces {items : List Document} {blanks cs : List Char} (h : ItemsText items cs)
    (hblanks : Spaces blanks) : ItemsText items (blanks ++ cs) := by
  cases h with
  | last hbefore h hafter =>
    rw [← List.append_assoc]
    exact .last (hblanks.append hbefore) h hafter
  | more hbefore h hafter hrest =>
    rw [← List.append_assoc]
    exact .more (hblanks.append hbefore) h hafter hrest

theorem MembersText.spaces {members : List (String × Document)} {blanks cs : List Char}
    (h : MembersText members cs) (hblanks : Spaces blanks) :
    MembersText members (blanks ++ cs) := by
  cases h with
  | last hstart hkey hbetween hbefore h hafter =>
    rw [← List.append_assoc]
    exact .last (hblanks.append hstart) hkey hbetween hbefore h hafter
  | more hstart hkey hbetween hbefore h hafter hrest =>
    rw [← List.append_assoc]
    exact .more (hblanks.append hstart) hkey hbetween hbefore h hafter hrest

/-! ### Every text is read -/

section Step
variable {fuel : Nat} {cs after : List Char} {item : Document} {key : String}

theorem readValue?_bracket (fuel : Nat) (cs : List Char) :
    readValue? (fuel + 1) ('[' :: cs) = match skipSpace cs with
      | ']' :: rest => some (.array [], rest)
      | rest => (readItems? fuel rest).map fun out => (.array out.1, out.2) :=
  rfl

theorem readValue?_brace (fuel : Nat) (cs : List Char) :
    readValue? (fuel + 1) ('{' :: cs) = match skipSpace cs with
      | '}' :: rest => some (.object [], rest)
      | rest => (readMembers? fuel rest).map fun out => (.object out.1, out.2) :=
  rfl

theorem readValue?_emptyArray (h : skipSpace cs = ']' :: rest) :
    readValue? (fuel + 1) ('[' :: cs) = some (.array [], rest) := by
  simp only [readValue?_bracket, h]

theorem readValue?_array {c : Char} (h : skipSpace cs = c :: rest) (hc : c ≠ ']') :
    readValue? (fuel + 1) ('[' :: cs)
      = (readItems? fuel (c :: rest)).map fun out => (.array out.1, out.2) := by
  rw [readValue?_bracket, h]
  split
  · next heq => exact absurd (List.cons.inj heq).1 hc
  · rfl

theorem readValue?_emptyObject (h : skipSpace cs = '}' :: rest) :
    readValue? (fuel + 1) ('{' :: cs) = some (.object [], rest) := by
  simp only [readValue?_brace, h]

theorem readValue?_object (h : skipSpace cs = '"' :: rest) :
    readValue? (fuel + 1) ('{' :: cs)
      = (readMembers? fuel ('"' :: rest)).map fun out => (.object out.1, out.2) := by
  rw [readValue?_brace, h]
  rfl

theorem readItems?_last (hvalue : readValue? fuel cs = some (item, after))
    (hclose : skipSpace after = ']' :: rest) : readItems? (fuel + 1) cs = some ([item], rest) := by
  simp only [readItems?, hvalue, hclose]

theorem readItems?_more (hvalue : readValue? fuel cs = some (item, after))
    (hcomma : skipSpace after = ',' :: rest) :
    readItems? (fuel + 1) cs = (readItems? fuel rest).map fun out => (item :: out.1, out.2) := by
  simp only [readItems?, hvalue, hcomma]

variable {start colon value : List Char}

theorem readMembers?_last (hstart : skipSpace cs = '"' :: start)
    (hkey : readString? start = some (some key, colon)) (hcolon : skipSpace colon = ':' :: value)
    (hvalue : readValue? fuel value = some (item, after)) (hclose : skipSpace after = '}' :: rest) :
    readMembers? (fuel + 1) cs = some ([(key, item)], rest) := by
  simp only [readMembers?, hstart, hkey, hcolon, hvalue, hclose]

theorem readMembers?_more (hstart : skipSpace cs = '"' :: start)
    (hkey : readString? start = some (some key, colon)) (hcolon : skipSpace colon = ':' :: value)
    (hvalue : readValue? fuel value = some (item, after)) (hcomma : skipSpace after = ',' :: rest) :
    readMembers? (fuel + 1) cs
      = (readMembers? fuel rest).map fun out => ((key, item) :: out.1, out.2) := by
  simp only [readMembers?, hstart, hkey, hcolon, hvalue, hcomma]

end Step

/-- Values are read from their texts to the end, given fuel for every character. -/
def ReadsValues (fuel : Nat) : Prop :=
  ∀ {doc : Document} {text rest : List Char}, DocumentText doc text →
    (∀ t, doc = .number t → EndsNumber rest) → text.length < fuel →
    readValue? fuel (text ++ rest) = some (doc, rest)

/-- Items are read from their texts to the end, given fuel for every character. -/
def ReadsItems (fuel : Nat) : Prop :=
  ∀ {items : List Document} {text rest : List Char}, ItemsText items text →
    text.length < fuel → readItems? fuel (text ++ rest) = some (items, rest)

/-- Members are read from their texts to the end, given fuel for every character. -/
def ReadsMembers (fuel : Nat) : Prop :=
  ∀ {members : List (String × Document)} {text rest : List Char}, MembersText members text →
    text.length < fuel → readMembers? fuel (text ++ rest) = some (members, rest)

theorem readsValues_succ {fuel : Nat} (ihItems : ReadsItems fuel) (ihMembers : ReadsMembers fuel) :
    ReadsValues (fuel + 1) := by
  intro doc text rest h hrest hfuel
  cases h with
  | null => rfl
  | yes => rfl
  | no => rfl
  | negative hsign h =>
    have hread := readNumber?_of_text h (hrest _ rfl)
    rw [hsign] at hread
    exact congrArg (Option.map _) hread
  | unsigned hsign h =>
    have hread := readNumber?_of_text h (hrest _ rfl)
    rw [hsign] at hread
    -- a number without a sign is told by its first digit
    obtain ⟨⟨hwhole, -⟩, -, -⟩ := h
    obtain ⟨c, cs, hcs, hc⟩ := hwhole.exists_cons
    rw [hcs] at hread ⊢
    simp only [List.cons_append] at hread ⊢
    rw [readValue?_digit hc, hread]
    rfl
  | string h => exact congrArg (Option.map _) (readString?_of_text h)
  | emptyArray h =>
    rename_i blanks
    have hskip : skipSpace (blanks ++ [']'] ++ rest) = ']' :: rest := by
      rw [List.append_assoc, skipSpace_append h]
      rfl
    exact readValue?_emptyArray hskip
  | array h =>
    rename_i items text
    -- blanks after the bracket belong to the text of the first item
    obtain ⟨before, c, tail, hbefore, rfl, hspace, hclose, htail⟩ := h.exists_start
    have hskip : skipSpace (before ++ c :: tail ++ rest) = c :: (tail ++ rest) := by
      rw [List.append_assoc, skipSpace_append hbefore]
      exact skipSpace_cons hspace _
    have hread : readItems? fuel (c :: tail ++ rest) = some (items, rest) := by
      refine ihItems htail ?_
      simp only [List.length_cons, List.length_append] at hfuel ⊢
      omega
    exact (readValue?_array hskip hclose).trans (congrArg (Option.map _) hread)
  | emptyObject h =>
    rename_i blanks
    have hskip : skipSpace (blanks ++ ['}'] ++ rest) = '}' :: rest := by
      rw [List.append_assoc, skipSpace_append h]
      rfl
    exact readValue?_emptyObject hskip
  | object h =>
    rename_i members text
    obtain ⟨before, tail, hbefore, rfl, htail⟩ := h.exists_start
    have hskip : skipSpace (before ++ '"' :: tail ++ rest) = '"' :: (tail ++ rest) := by
      rw [List.append_assoc, skipSpace_append hbefore]
      rfl
    have hread : readMembers? fuel ('"' :: tail ++ rest) = some (members, rest) := by
      refine ihMembers htail ?_
      simp only [List.length_cons, List.length_append] at hfuel ⊢
      omega
    exact (readValue?_object hskip).trans (congrArg (Option.map _) hread)

theorem readsItems_succ {fuel : Nat} (ihValue : ReadsValues fuel) (ihItems : ReadsItems fuel) :
    ReadsItems (fuel + 1) := by
  intro items text rest h hfuel
  cases h with
  | last hbefore h hafter =>
    rename_i item before text after
    have hread : readValue? fuel (before ++ (text ++ (after ++ ']' :: rest)))
        = some (item, after ++ ']' :: rest) := by
      simp only [List.length_append, List.length_cons] at hfuel
      rw [readValue?_spaces hbefore]
      exact ihValue h (fun _ _ => .of_spaces hafter endsNumber_closeSquare) (by omega)
    simp only [List.append_assoc]
    exact readItems?_last hread (skipSpace_append hafter _)
  | more hbefore h hafter hrest =>
    rename_i item items before text after tail
    simp only [List.append_assoc, List.length_append, List.length_cons] at hfuel ⊢
    have hread : readValue? fuel (before ++ (text ++ (after ++ ',' :: (tail ++ rest))))
        = some (item, after ++ ',' :: (tail ++ rest)) := by
      rw [readValue?_spaces hbefore]
      exact ihValue h (fun _ _ => .of_spaces hafter endsNumber_comma) (by omega)
    exact (readItems?_more hread (skipSpace_append hafter _)).trans
      (congrArg (Option.map _) (ihItems hrest (by omega)))

theorem readsMembers_succ {fuel : Nat} (ihValue : ReadsValues fuel)
    (ihMembers : ReadsMembers fuel) : ReadsMembers (fuel + 1) := by
  intro members text rest h hfuel
  cases h with
  | last hstart hkey hbetween hbefore h hafter =>
    rename_i key item start name between before text after
    have hread : readValue? fuel (before ++ (text ++ (after ++ '}' :: rest)))
        = some (item, after ++ '}' :: rest) := by
      simp only [List.length_append, List.length_cons] at hfuel
      rw [readValue?_spaces hbefore]
      exact ihValue h (fun _ _ => .of_spaces hafter endsNumber_closeCurly) (by omega)
    simp only [List.append_assoc, List.cons_append, List.nil_append]
    exact readMembers?_last (skipSpace_append hstart _) (readString?_of_text hkey)
      (skipSpace_append hbetween _) hread (skipSpace_append hafter _)
  | more hstart hkey hbetween hbefore h hafter hrest =>
    rename_i key item members start name between before text after tail
    have hread : readValue? fuel (before ++ (text ++ (after ++ ',' :: (tail ++ rest))))
        = some (item, after ++ ',' :: (tail ++ rest)) := by
      simp only [List.length_append, List.length_cons] at hfuel
      rw [readValue?_spaces hbefore]
      exact ihValue h (fun _ _ => .of_spaces hafter endsNumber_comma) (by omega)
    simp only [List.append_assoc, List.cons_append, List.length_append, List.length_cons]
      at hfuel ⊢
    exact (readMembers?_more (skipSpace_append hstart _) (readString?_of_text hkey)
      (skipSpace_append hbetween _) hread (skipSpace_append hafter _)).trans
        (congrArg (Option.map _) (ihMembers hrest (by omega)))

theorem read_of_text (fuel : Nat) : ReadsValues fuel ∧ ReadsItems fuel ∧ ReadsMembers fuel := by
  induction fuel with
  | zero =>
    exact ⟨fun _ _ h => absurd h (Nat.not_lt_zero _), fun _ h => absurd h (Nat.not_lt_zero _),
      fun _ h => absurd h (Nat.not_lt_zero _)⟩
  | succ fuel ih =>
    obtain ⟨ihValue, ihItems, ihMembers⟩ := ih
    exact ⟨readsValues_succ ihItems ihMembers, readsItems_succ ihValue ihItems,
      readsMembers_succ ihValue ihMembers⟩

/-- A text of a document is read as that document, up to its end. -/
theorem readValue?_of_text {doc : Document} {text : List Char} {fuel : Nat}
    (h : DocumentText doc text) (hrest : ∀ t, doc = .number t → EndsNumber rest)
    (hfuel : text.length < fuel) : readValue? fuel (text ++ rest) = some (doc, rest) :=
  (read_of_text fuel).1 h hrest hfuel

/-! ### Everything read is a text -/

/-- Whatever is read as a value is a text of it, after blanks. -/
def YieldsValues (fuel : Nat) : Prop :=
  ∀ {cs rest : List Char} {doc : Document}, readValue? fuel cs = some (doc, rest) →
    ∃ before text, Spaces before ∧ DocumentText doc text ∧ cs = before ++ (text ++ rest)

/-- Whatever is read as items is a text of them. -/
def YieldsItems (fuel : Nat) : Prop :=
  ∀ {cs rest : List Char} {items : List Document}, readItems? fuel cs = some (items, rest) →
    ∃ text, ItemsText items text ∧ cs = text ++ rest

/-- Whatever is read as members is a text of them. -/
def YieldsMembers (fuel : Nat) : Prop :=
  ∀ {cs rest : List Char} {members : List (String × Document)},
    readMembers? fuel cs = some (members, rest) → ∃ text, MembersText members text ∧ cs = text ++ rest

theorem yieldsValues_succ {fuel : Nat} (ihItems : YieldsItems fuel)
    (ihMembers : YieldsMembers fuel) : YieldsValues (fuel + 1) := by
  intro cs rest doc h
  obtain ⟨before, hbefore, hcs⟩ := exists_spaces cs
  suffices hs : ∃ text, DocumentText doc text ∧ skipSpace cs = text ++ rest by
    obtain ⟨text, htext, hskip⟩ := hs
    exact ⟨before, text, hbefore, htext, hskip ▸ hcs⟩
  -- one case for each character that a value can begin with
  unfold readValue? at h
  split at h
  · cases h
  · next cs heq =>
    obtain ⟨⟨value, rest'⟩, hread, hout⟩ := Option.map_eq_some_iff.1 h
    obtain ⟨rfl, rfl⟩ := Prod.mk.inj hout
    obtain ⟨text, htext, rfl⟩ := text_of_readString? hread
    exact ⟨_, .string htext, heq⟩
  · next cs heq =>
    obtain ⟨blanks, hblanks, hcs⟩ := exists_spaces cs
    rw [heq, hcs]
    split at h
    · next hskip =>
      obtain ⟨rfl, rfl⟩ := Prod.mk.inj (Option.some.inj h)
      rw [hskip]
      exact ⟨_, .emptyArray hblanks, by simp⟩
    · obtain ⟨⟨items, rest'⟩, hread, hout⟩ := Option.map_eq_some_iff.1 h
      obtain ⟨rfl, rfl⟩ := Prod.mk.inj hout
      obtain ⟨text, htext, hskip⟩ := ihItems hread
      rw [hskip]
      exact ⟨_, .array (htext.spaces hblanks), by simp⟩
  · next cs heq =>
    obtain ⟨blanks, hblanks, hcs⟩ := exists_spaces cs
    rw [heq, hcs]
    split at h
    · next hskip =>
      obtain ⟨rfl, rfl⟩ := Prod.mk.inj (Option.some.inj h)
      rw [hskip]
      exact ⟨_, .emptyObject hblanks, by simp⟩
    · obtain ⟨⟨members, rest'⟩, hread, hout⟩ := Option.map_eq_some_iff.1 h
      obtain ⟨rfl, rfl⟩ := Prod.mk.inj hout
      obtain ⟨text, htext, hskip⟩ := ihMembers hread
      rw [hskip]
      exact ⟨_, .object (htext.spaces hblanks), by simp⟩
  · next heq =>
    obtain ⟨rfl, rfl⟩ := Prod.mk.inj (Option.some.inj h)
    exact ⟨_, .null, heq⟩
  · next heq =>
    obtain ⟨rfl, rfl⟩ := Prod.mk.inj (Option.some.inj h)
    exact ⟨_, .yes, heq⟩
  · next heq =>
    obtain ⟨rfl, rfl⟩ := Prod.mk.inj (Option.some.inj h)
    exact ⟨_, .no, heq⟩
  · next cs heq =>
    obtain ⟨⟨t, rest'⟩, hread, hout⟩ := Option.map_eq_some_iff.1 h
    obtain ⟨rfl, rfl⟩ := Prod.mk.inj hout
    obtain ⟨text, htext, hsign, rfl⟩ := text_of_readNumber? hread
    exact ⟨_, .negative hsign htext, heq⟩
  · obtain ⟨⟨t, rest'⟩, hread, hout⟩ := Option.map_eq_some_iff.1 h
    obtain ⟨rfl, rfl⟩ := Prod.mk.inj hout
    obtain ⟨text, htext, hsign, heq⟩ := text_of_readNumber? hread
    exact ⟨_, .unsigned hsign htext, heq⟩

theorem yieldsItems_succ {fuel : Nat} (ihValue : YieldsValues fuel) (ihItems : YieldsItems fuel) :
    YieldsItems (fuel + 1) := by
  intro cs rest items h
  unfold readItems? at h
  split at h
  · cases h
  next item after hvalue =>
  obtain ⟨before, text, hbefore, htext, rfl⟩ := ihValue hvalue
  obtain ⟨blanks, hblanks, hafter⟩ := exists_spaces after
  rw [hafter]
  split at h
  · next tail heq =>
    obtain ⟨⟨items, rest'⟩, hread, hout⟩ := Option.map_eq_some_iff.1 h
    obtain ⟨rfl, rfl⟩ := Prod.mk.inj hout
    obtain ⟨text, hitems, rfl⟩ := ihItems hread
    rw [heq]
    exact ⟨_, .more hbefore htext hblanks hitems, by simp⟩
  · next tail heq =>
    obtain ⟨rfl, rfl⟩ := Prod.mk.inj (Option.some.inj h)
    rw [heq]
    exact ⟨_, .last hbefore htext hblanks, by simp⟩
  · cases h

theorem yieldsMembers_succ {fuel : Nat} (ihValue : YieldsValues fuel)
    (ihMembers : YieldsMembers fuel) : YieldsMembers (fuel + 1) := by
  intro cs rest members h
  obtain ⟨start, hstart, hcs⟩ := exists_spaces cs
  unfold readMembers? at h
  split at h
  on_goal 2 => cases h
  next name hname =>
  split at h
  on_goal 2 => cases h
  next key colon hkey =>
  obtain ⟨between, hbetween, hcolon⟩ := exists_spaces colon
  split at h
  on_goal 2 => cases h
  next value hvalue =>
  split at h
  · cases h
  next item after hitem =>
  obtain ⟨before, text, hbefore, htext, rfl⟩ := ihValue hitem
  obtain ⟨blanks, hblanks, hafter⟩ := exists_spaces after
  obtain ⟨keyText, hkeyText, rfl⟩ := text_of_readString? hkey
  rw [hcs, hname, hcolon, hvalue, hafter]
  split at h
  · next tail heq =>
    obtain ⟨⟨members, rest'⟩, hread, hout⟩ := Option.map_eq_some_iff.1 h
    obtain ⟨rfl, rfl⟩ := Prod.mk.inj hout
    obtain ⟨text, hmembers, rfl⟩ := ihMembers hread
    rw [heq]
    exact ⟨_, .more hstart hkeyText hbetween hbefore htext hblanks hmembers, by simp⟩
  · next tail heq =>
    obtain ⟨rfl, rfl⟩ := Prod.mk.inj (Option.some.inj h)
    rw [heq]
    exact ⟨_, .last hstart hkeyText hbetween hbefore htext hblanks, by simp⟩
  · cases h

theorem text_of_read (fuel : Nat) : YieldsValues fuel ∧ YieldsItems fuel ∧ YieldsMembers fuel := by
  induction fuel with
  | zero =>
    refine ⟨fun h => ?_, fun h => ?_, fun h => ?_⟩
    · cases (readValue?.eq_1 _).symm.trans h
    · cases (readItems?.eq_1 _).symm.trans h
    · cases (readMembers?.eq_1 _).symm.trans h
  | succ fuel ih =>
    obtain ⟨ihValue, ihItems, ihMembers⟩ := ih
    exact ⟨yieldsValues_succ ihItems ihMembers, yieldsItems_succ ihValue ihItems,
      yieldsMembers_succ ihValue ihMembers⟩

/-- What is read as a value is a text of it, after blanks. -/
theorem text_of_readValue? {fuel : Nat} {cs : List Char} {doc : Document}
    (h : readValue? fuel cs = some (doc, rest)) :
    ∃ before text, Spaces before ∧ DocumentText doc text ∧ cs = before ++ (text ++ rest) :=
  (text_of_read fuel).1 h

/-- A text is read as a document exactly when it is one of its texts between blanks. -/
theorem Document.parse?_eq_some_iff {cs : List Char} {doc : Document} :
    Document.parse? cs = some doc
      ↔ ∃ before text after, Spaces before ∧ DocumentText doc text ∧ Spaces after ∧
          cs = before ++ (text ++ after) := by
  constructor
  · intro h
    unfold Document.parse? at h
    split at h
    · next doc' rest hread =>
      split at h
      · next hempty =>
        obtain rfl := Option.some.inj h
        obtain ⟨before, text, hbefore, htext, rfl⟩ := text_of_readValue? hread
        obtain ⟨after, hafter, hrest⟩ := exists_spaces rest
        rw [List.isEmpty_iff.1 hempty, List.append_nil] at hrest
        exact ⟨before, text, rest, hbefore, htext, hrest ▸ hafter, rfl⟩
      · cases h
    · cases h
  · rintro ⟨before, text, after, hbefore, htext, hafter, rfl⟩
    -- a number ends where blanks or nothing follow it
    have hends : EndsNumber after := by
      cases after with
      | nil => rintro _ ⟨⟩
      | cons c after =>
        rintro _ ⟨⟩
        rcases isSpace_iff.1 (hafter c List.mem_cons_self) with rfl | rfl | rfl | rfl <;> decide
    have hfuel : text.length < (before ++ (text ++ after)).length + 1 := by
      simp only [List.length_append]
      omega
    have hskip : skipSpace after = [] := by
      have happend := skipSpace_append hafter []
      rw [List.append_nil] at happend
      exact happend
    unfold Document.parse?
    rw [readValue?_spaces hbefore, readValue?_of_text htext (fun _ _ => hends) hfuel]
    dsimp only
    rw [hskip]
    rfl

/-- What opens with a brace is an object. -/
theorem DocumentText.exists_members {doc : Document} {cs : List Char}
    (h : DocumentText doc ('{' :: cs)) : ∃ members, doc = .object members := by
  generalize htext : '{' :: cs = text at h
  cases h with
  | unsigned hsign h =>
    obtain ⟨⟨hwhole, -⟩, -, -⟩ := h
    obtain ⟨c, ds, hds, hc⟩ := hwhole.exists_cons
    rw [hds] at htext
    obtain rfl := (List.cons.inj htext).1
    exact absurd hc (by decide)
  | emptyObject => exact ⟨_, rfl⟩
  | object => exact ⟨_, rfl⟩
  | _ => cases htext

/-- Where a text of an object breaks off, there is no document. -/
theorem Document.parse?_of_broken {members : List (String × Document)} {front back : List Char}
    (h : DocumentText (.object members) (front ++ back)) (hback : back ≠ []) :
    Document.parse? front = none := by
  rw [Option.eq_none_iff_forall_ne_some]
  intro doc hdoc
  obtain ⟨before, text, after, hbefore, htext, -, rfl⟩ := Document.parse?_eq_some_iff.1 hdoc
  obtain ⟨cs, hcs⟩ : ∃ cs, before ++ (text ++ after) ++ back = '{' :: cs := by
    generalize before ++ (text ++ after) ++ back = whole at h
    cases h with
    | emptyObject => exact ⟨_, rfl⟩
    | object => exact ⟨_, rfl⟩
  obtain rfl : before = [] := by
    cases before with
    | nil => rfl
    | cons c before =>
      obtain rfl := (List.cons.inj hcs).1
      exact absurd (hbefore '{' List.mem_cons_self) (by decide)
  obtain ⟨c, tail, rfl, -⟩ := htext.exists_cons
  obtain rfl := (List.cons.inj hcs).1
  obtain ⟨members', rfl⟩ := htext.exists_members
  -- the whole text is read to its end, and the object in front of the break to its own
  rw [List.nil_append, List.append_assoc] at h
  have hwhole := @readValue?_of_text [] _ _ _ h (fun _ ht => by cases ht) (Nat.lt_succ_self _)
  have hfuel : ('{' :: tail).length < ('{' :: tail ++ (after ++ back)).length.succ := by
    simp only [List.length_append]
    omega
  have hfront := @readValue?_of_text (after ++ back) _ _ _ htext (fun _ ht => by cases ht) hfuel
  rw [List.append_nil, hfront] at hwhole
  exact hback (List.append_eq_nil_iff.1 (Prod.mk.inj (Option.some.inj hwhole)).2).2

end MotifQuery.Json
