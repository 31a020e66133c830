import MotifQuery.Proofs.Xml.Escape
import MotifQuery.Xml.Writer

/-!
# `MotifQuery.Proofs.Xml.Tags`: tags read back

The bytes of a tag are cut where the tag ends (`tagPart_tagBytes`), and the event that they
give has the name and the attributes that were written (`tagEvent_opening`,
`tagEvent_standing`). Names are made of letters and points; the values of attributes may
hold anything.
-/

set_option autoImplicit false

namespace MotifQuery.Xml

open Text

/-! ### Names -/

/-- The characters of the names that are written. -/
def isNameChar (c : Char) : Bool :=
  isAsciiLetter c || c == '.'

/-- May the name be written in a tag? -/
def isName (name : String) : Bool :=
  !name.toList.isEmpty && name.toList.all isNameChar

theorem isNameChar_of_mem {name : String} (h : isName name = true) {c : Char}
    (hc : c ∈ name.toList) : isNameChar c = true := by
  rw [isName, Bool.and_eq_true, List.all_eq_true] at h
  exact h.2 c hc

theorem byte_not_mem_name {name : String} (h : isName name = true) {d : Char}
    (hd : d.toNat < 0x80) (hname : isNameChar d = false) : byte d ∉ bytesOf name := by
  refine toUInt8_not_mem_encode hd fun hmem => ?_
  rw [isNameChar_of_mem h hmem] at hname
  cases hname

theorem isSpace_of_mem_name {name : String} (h : isName name = true) {b : UInt8}
    (hb : b ∈ bytesOf name) : isSpace b = false := by
  obtain ⟨c, hc, hmem⟩ := List.mem_flatMap.1 hb
  rw [isSpace_of_mem_encodeChar hmem]
  have hname := isNameChar_of_mem h hc
  cases hspace : isSpaceChar c with
  | false => rfl
  | true =>
    simp only [isSpaceChar, Bool.or_eq_true, beq_iff_eq] at hspace
    rcases hspace with ((rfl | rfl) | rfl) | rfl <;> exact absurd hname (by decide)

theorem isAsciiBlank_of_mem_name {name : String} (h : isName name = true) {b : UInt8}
    (hb : b ∈ bytesOf name) : isAsciiBlank b = false := by
  have hfeed : b ≠ 0x0C := by
    rintro rfl
    exact byte_not_mem_name h (by decide : (Char.ofNat 12).toNat < 0x80) (by decide) hb
  rw [isAsciiBlank, isSpace_of_mem_name h hb, Bool.false_or, beq_eq_false_iff_ne]
  exact hfeed

theorem exists_bytesOf_name {name : String} (h : isName name = true) :
    ∃ b bs, bytesOf name = b :: bs := by
  rw [isName, Bool.and_eq_true, Bool.not_eq_true', List.isEmpty_eq_false_iff] at h
  cases hcs : name.toList with
  | nil => exact absurd hcs h.1
  | cons c cs =>
    obtain ⟨b, bs, hbytes, -⟩ := readChar_encodeChar c []
    refine ⟨b, bs ++ encode cs, ?_⟩
    rw [bytesOf, hcs, encode_cons, hbytes, List.cons_append]

/-! ### Where a tag ends -/

/-- Cutting a tag goes past these bytes and is then outside quotes. -/
def TagPart (bs : Bytes) : Prop :=
  ∀ rest, cutTag none (bs ++ rest) = (bs ++ (cutTag none rest).1, (cutTag none rest).2)

theorem TagPart.append {as bs : Bytes} (ha : TagPart as) (hb : TagPart bs) :
    TagPart (as ++ bs) := by
  intro rest
  rw [List.append_assoc, ha, hb, List.append_assoc]

theorem tagPart_nil : TagPart [] :=
  fun _ => rfl

theorem tagPart_of_not_mem {bs : Bytes} (hdouble : byte '"' ∉ bs) (hsingle : byte '\'' ∉ bs)
    (hend : byte '>' ∉ bs) : TagPart bs := by
  intro rest
  -- outside quotes only the end of the tag counts
  induction bs with
  | nil => rfl
  | cons b bs ih =>
    obtain ⟨hdouble, hdoubles⟩ := List.ne_and_not_mem_of_not_mem_cons hdouble
    obtain ⟨hsingle, hsingles⟩ := List.ne_and_not_mem_of_not_mem_cons hsingle
    obtain ⟨hend, hends⟩ := List.ne_and_not_mem_of_not_mem_cons hend
    have hquote : (b == byte '"' || b == byte '\'') = false := by
      simp [Ne.symm hdouble, Ne.symm hsingle]
    have hstop : ((none : Option UInt8).isNone && b == byte '>') = false := by
      simp [Ne.symm hend]
    rw [List.cons_append, cutTag]
    dsimp only
    rw [hquote, hstop, if_neg Bool.false_ne_true, if_neg Bool.false_ne_true,
      ih hdoubles hsingles hends]
    rfl

/-- Inside quotes the tag does not end. -/
theorem cutTag_quoted {quote : UInt8} {bs : Bytes} (h : quote ∉ bs) (rest : Bytes) :
    cutTag (some quote) (bs ++ quote :: rest)
      = (bs ++ quote :: (cutTag none rest).1, (cutTag none rest).2) := by
  induction bs with
  | nil =>
    show cutTag (some quote) (quote :: rest) = _
    rw [cutTag]
    dsimp only
    rw [beq_self_eq_true, if_pos rfl]
    rfl
  | cons b bs ih =>
    obtain ⟨hb, hbs⟩ := List.ne_and_not_mem_of_not_mem_cons h
    have hne : (b == quote) = false := beq_eq_false_iff_ne.2 (Ne.symm hb)
    rw [List.cons_append, cutTag]
    dsimp only
    rw [hne, if_neg Bool.false_ne_true, ih hbs]
    rfl

theorem tagPart_quoted {bs : Bytes} (h : byte '"' ∉ bs) :
    TagPart (byte '"' :: (bs ++ [byte '"'])) := by
  intro rest
  rw [List.cons_append, List.append_assoc, List.singleton_append, cutTag]
  dsimp only
  rw [beq_self_eq_true, Bool.true_or, if_pos rfl, cutTag_quoted h]
  simp [byte]

/-! ### Bytes of tags -/

/-- The bytes of a tag between its angle brackets. -/
def tagBytes (name : String) (attributes : List (String × String)) : Bytes :=
  encode (tagChars name (some attributes))

/-- The bytes of attributes. -/
def attributeBytes (attributes : List (String × String)) : Bytes :=
  encode (attributes.flatMap attributeChars)

theorem tagBytes_eq (name : String) (attributes : List (String × String)) :
    tagBytes name attributes = bytesOf name ++ attributeBytes attributes :=
  encode_append _ _

theorem attributeBytes_cons (a : String × String) (attributes : List (String × String)) :
    attributeBytes (a :: attributes)
      = byte ' ' :: (bytesOf a.1 ++ byte '=' :: byte '"' :: (encode (escape a.2.toList)
          ++ byte '"' :: attributeBytes attributes)) := by
  have hchars : (a :: attributes).flatMap attributeChars
      = ' ' :: (a.1.toList ++ '=' :: '"' :: (escape a.2.toList
          ++ '"' :: attributes.flatMap attributeChars)) := by
    simp [attributeChars]
  rw [attributeBytes, hchars, encode_cons_of_lt (by decide), encode_append,
    encode_cons_of_lt (by decide), encode_cons_of_lt (by decide), encode_append,
    encode_cons_of_lt (by decide), bytesOf, attributeBytes]

/-- Names in tags and the names of their attributes, which differ. -/
structure WrittenTag (name : String) (attributes : List (String × String)) : Prop where
  name : isName name = true
  keys : ∀ a ∈ attributes, isName a.1 = true
  nodup : (attributes.map Prod.fst).Nodup

theorem WrittenTag.of_keys {name : String} {attributes : List (String × String)}
    (keys : List String) (h : attributes.map Prod.fst = keys) (hname : isName name = true)
    (hkeys : keys.all isName = true) (hnodup : keys.Nodup) : WrittenTag name attributes where
  name := hname
  keys := by
    intro a ha
    refine List.all_eq_true.1 hkeys a.1 ?_
    rw [← h]
    exact List.mem_map_of_mem ha
  nodup := h ▸ hnodup

theorem tagPart_name {name : String} (h : isName name = true) : TagPart (bytesOf name) :=
  tagPart_of_not_mem (byte_not_mem_name h (by decide) rfl) (byte_not_mem_name h (by decide) rfl)
    (byte_not_mem_name h (by decide) rfl)

theorem tagPart_attributes {attributes : List (String × String)}
    (h : ∀ a ∈ attributes, isName a.1 = true) : TagPart (attributeBytes attributes) := by
  induction attributes with
  | nil => exact tagPart_nil
  | cons a attributes ih =>
    have hvalue : byte '"' ∉ encode (escape a.2.toList) :=
      byte_not_mem_encode_escape (by decide) rfl _
    have hsingle : ∀ c : Char, c = ' ' ∨ c = '=' → TagPart [byte c] := by
      rintro c (rfl | rfl) <;> exact tagPart_of_not_mem (by decide) (by decide) (by decide)
    have hparts := (hsingle ' ' (.inl rfl)).append
      ((tagPart_name (h a List.mem_cons_self)).append ((hsingle '=' (.inr rfl)).append
        ((tagPart_quoted hvalue).append (ih fun x hx => h x (List.mem_cons_of_mem a hx)))))
    rw [attributeBytes_cons]
    simpa using hparts

theorem tagPart_tagBytes {name : String} {attributes : List (String × String)}
    (h : WrittenTag name attributes) : TagPart (tagBytes name attributes) := by
  rw [tagBytes_eq]
  exact (tagPart_name h.name).append (tagPart_attributes h.keys)

/-- A tag ends at the angle bracket after it. -/
theorem cutTag_part {bs : Bytes} (h : TagPart bs) (rest : Bytes) :
    cutTag none (bs ++ byte '>' :: rest) = (bs, some rest) := by
  rw [h]
  have hend : cutTag none (byte '>' :: rest) = ([], some rest) := rfl
  rw [hend, List.append_nil]

/-- A tag is told by its first byte from comments, closing tags and instructions, and is cut
as a whole. -/
structure IsTag (bs : Bytes) : Prop where
  whole : TagPart bs
  starts : ∃ c cs, bs = c :: cs ∧ c ≠ byte '!' ∧ c ≠ byte '/' ∧ c ≠ byte '?'

/-- A tag may have a slash at its end. -/
theorem IsTag.slash {bs : Bytes} (h : IsTag bs) : IsTag (bs ++ [byte '/']) where
  whole := h.whole.append (tagPart_of_not_mem (by decide) (by decide) (by decide))
  starts := by
    obtain ⟨c, cs, rfl, hne⟩ := h.starts
    exact ⟨c, cs ++ [byte '/'], rfl, hne⟩

theorem isTag_tagBytes {name : String} {attributes : List (String × String)}
    (h : WrittenTag name attributes) : IsTag (tagBytes name attributes) where
  whole := tagPart_tagBytes h
  starts := by
    obtain ⟨b, bs, hbytes⟩ := exists_bytesOf_name h.name
    -- a name does not begin like a comment, a closing tag or an instruction
    have hne : ∀ d : Char, d.toNat < 0x80 → isNameChar d = false → b ≠ byte d := by
      rintro d hd hname rfl
      exact byte_not_mem_name h.name hd hname (hbytes ▸ List.mem_cons_self)
    refine ⟨b, bs ++ attributeBytes attributes, ?_, hne _ (by decide) rfl, hne _ (by decide) rfl,
      hne _ (by decide) rfl⟩
    rw [tagBytes_eq, hbytes, List.cons_append]

/-! ### Attributes -/

theorem cutAt_append {b : UInt8} {bs : Bytes} (h : b ∉ bs) (rest : Bytes) :
    cutAt b (bs ++ b :: rest) = (bs, some rest) := by
  have hall : ∀ a ∈ bs, (a != b) = true := fun a ha =>
    bne_iff_ne.2 fun heq => h (heq ▸ ha)
  have hstop : (b != b) = false := by simp
  unfold cutAt
  rw [List.dropWhile_append_of_pos hall, List.dropWhile_cons, hstop,
    List.takeWhile_append_of_pos hall, List.takeWhile_cons, hstop]
  simp

/-- The value of an attribute is read as it was before escaping. -/
theorem readAttributeValue?_quoted {bs : Bytes} (h : byte '"' ∉ bs) (rest : Bytes) :
    readAttributeValue? (byte '"' :: (bs ++ byte '"' :: rest)) = some (bs, rest) := by
  have hspace : isSpace (byte '"') = false := rfl
  have hquote : (byte '"' == byte '"' || byte '"' == byte '\'') = true := rfl
  unfold readAttributeValue?
  rw [List.dropWhile_cons, hspace, if_neg Bool.false_ne_true]
  dsimp only
  rw [hquote, if_pos rfl, cutAt_append h]

/-- The name of an attribute ends before the equals sign. -/
theorem cutKey {bs : Bytes} (hmark : byte '=' ∉ bs) (hspace : ∀ b ∈ bs, isSpace b = false)
    (rest : Bytes) :
    (bs ++ byte '=' :: rest).takeWhile (fun b => !(b == byte '=' || isSpace b)) = bs ∧
      (bs ++ byte '=' :: rest).dropWhile (fun b => !(b == byte '=' || isSpace b))
        = byte '=' :: rest := by
  have hall : ∀ b ∈ bs, (!(b == byte '=' || isSpace b)) = true := by
    intro b hb
    have hne : b ≠ byte '=' := fun heq => hmark (heq ▸ hb)
    simp [hne, hspace b hb]
  have hstop : (!(byte '=' == byte '=' || isSpace (byte '='))) = false := rfl
  constructor
  · rw [List.takeWhile_append_of_pos hall, List.takeWhile_cons, hstop, if_neg Bool.false_ne_true,
      List.append_nil]
  · rw [List.dropWhile_append_of_pos hall, List.dropWhile_cons, hstop,
      if_neg Bool.false_ne_true]

/-- An attribute is read back in front of the others, where its name is not yet seen. -/
theorem readAttributes_cons {a : String × String} {attributes others : List (String × String)}
    {seen : List Bytes} {fuel : Nat} (hname : isName a.1 = true) (hnew : bytesOf a.1 ∉ seen)
    (hothers : readAttributes fuel (bytesOf a.1 :: seen) (attributeBytes attributes)
      = some others) :
    readAttributes (fuel + 1) seen (attributeBytes (a :: attributes)) = some (a :: others) := by
  have hvalue : byte '"' ∉ encode (escape a.2.toList) :=
    byte_not_mem_encode_escape (by decide) rfl _
  obtain ⟨b, bs, hbytes⟩ := exists_bytesOf_name hname
  have hmark : byte '=' ∉ b :: bs := hbytes ▸ byte_not_mem_name hname (by decide) rfl
  have hspaces : ∀ c ∈ b :: bs, isSpace c = false := fun c hc =>
    isSpace_of_mem_name hname (hbytes ▸ hc)
  have hb := hspaces b List.mem_cons_self
  obtain ⟨htake, hdrop⟩ := cutKey (List.ne_and_not_mem_of_not_mem_cons hmark).2
    (fun c hc => hspaces c (List.mem_cons_of_mem b hc))
    (byte '"' :: (encode (escape a.2.toList) ++ byte '"' :: attributeBytes attributes))
  have hunseen : seen.contains (b :: bs) = false := by
    rw [← hbytes, Bool.eq_false_iff, Ne, List.contains_iff_mem]
    exact hnew
  have hspace : isSpace (byte ' ') = true := rfl
  have hstop : isSpace (byte '=') = false := rfl
  have hequals : (byte '=' != byte '=') = false := rfl
  -- the blank and the name
  rw [attributeBytes_cons, hbytes, readAttributes, List.dropWhile_cons, hspace, if_pos rfl,
    List.cons_append, List.dropWhile_cons, hb, if_neg Bool.false_ne_true]
  dsimp only
  -- the equals sign
  rw [hdrop, htake, List.dropWhile_cons, hstop, if_neg Bool.false_ne_true]
  dsimp only
  -- the value between its quotes
  rw [hequals, hunseen, readAttributeValue?_quoted hvalue]
  dsimp only
  rw [← hbytes, hothers, readText, stringLossy_bytesOf]
  show some ((a.1, String.ofList a.2.toList) :: others) = some (a :: others)
  rw [String.ofList_toList]

/-- Every list of attributes is read back in order. -/
theorem readAttributes_attributeBytes {attributes : List (String × String)}
    (hkeys : ∀ a ∈ attributes, isName a.1 = true) (hnodup : (attributes.map Prod.fst).Nodup)
    {seen : List Bytes} (hseen : ∀ a ∈ attributes, bytesOf a.1 ∉ seen) {fuel : Nat}
    (hfuel : attributes.length < fuel) :
    readAttributes fuel seen (attributeBytes attributes) = some attributes := by
  induction attributes generalizing seen fuel with
  | nil =>
    cases fuel with
    | zero => exact absurd hfuel (Nat.not_lt_zero _)
    | succ fuel => rfl
  | cons a attributes ih =>
    cases fuel with
    | zero => exact absurd hfuel (Nat.not_lt_zero _)
    | succ fuel =>
      obtain ⟨hfirst, hrest⟩ := List.nodup_cons.1 hnodup
      -- the name of this attribute is now seen, and no later one has it
      have hlater : ∀ x ∈ attributes, bytesOf x.1 ∉ bytesOf a.1 :: seen := by
        intro x hx hmem
        rcases List.mem_cons.1 hmem with heq | hmem
        · exact hfirst (bytesOf_inj heq ▸ List.mem_map_of_mem hx)
        · exact hseen x (List.mem_cons_of_mem a hx) hmem
      have hothers := ih (fun x hx => hkeys x (List.mem_cons_of_mem a hx)) hrest hlater
        (Nat.lt_of_succ_lt_succ hfuel)
      exact readAttributes_cons (hkeys a List.mem_cons_self) (hseen a List.mem_cons_self) hothers

/-! ### Events of tags -/

theorem length_le_length_attributeBytes (attributes : List (String × String)) :
    attributes.length ≤ (attributeBytes attributes).length := by
  induction attributes with
  | nil => exact Nat.zero_le _
  | cons a attributes ih =>
    rw [attributeBytes_cons]
    simp only [List.length_cons, List.length_append]
    omega

/-- What follows the name in a tag is nothing or begins with a blank. -/
theorem cutName {name : String} (h : isName name = true) (attributes : List (String × String)) :
    (tagBytes name attributes).takeWhile (fun b => !isSpace b) = bytesOf name ∧
      (tagBytes name attributes).dropWhile (fun b => !isSpace b) = attributeBytes attributes := by
  have hall : ∀ b ∈ bytesOf name, (!isSpace b) = true := by
    intro b hb
    rw [isSpace_of_mem_name h hb]
    rfl
  rw [tagBytes_eq, List.takeWhile_append_of_pos hall, List.dropWhile_append_of_pos hall]
  cases attributes with
  | nil => exact ⟨List.append_nil _, rfl⟩
  | cons a attributes =>
    have hstop : (!isSpace (byte ' ')) = false := rfl
    rw [attributeBytes_cons, List.takeWhile_cons, List.dropWhile_cons, hstop]
    exact ⟨List.append_nil _, rfl⟩

theorem tagName_tagBytes {name : String} {attributes : List (String × String)}
    (h : WrittenTag name attributes) : tagName (tagBytes name attributes) = bytesOf name :=
  (cutName h.name attributes).1

theorem tagAttributes_tagBytes {name : String} {attributes : List (String × String)}
    (h : WrittenTag name attributes) :
    tagAttributes (tagBytes name attributes) = some attributes := by
  unfold tagAttributes
  rw [(cutName h.name attributes).2]
  refine readAttributes_attributeBytes h.keys h.nodup (fun a _ hmem => by cases hmem) ?_
  have hlength := length_le_length_attributeBytes attributes
  rw [tagBytes_eq, List.length_append]
  omega

/-- No tag with content ends like one without. -/
theorem getLast?_tagBytes {name : String} (h : isName name = true)
    (attributes : List (String × String)) :
    ((tagBytes name attributes).getLast? == some (byte '/')) = false := by
  rw [beq_eq_false_iff_ne]
  intro hlast
  rw [tagBytes_eq] at hlast
  rcases List.eq_nil_or_concat attributes with rfl | ⟨init, a, rfl⟩
  · have hnil : attributeBytes [] = [] := rfl
    rw [hnil, List.append_nil] at hlast
    exact byte_not_mem_name h (by decide) rfl (List.mem_of_getLast? hlast)
  · have hquote : attributeBytes (init.concat a)
        = attributeBytes init ++ byte ' ' :: (bytesOf a.1 ++ byte '=' :: byte '"' ::
            encode (escape a.2.toList)) ++ [byte '"'] := by
      rw [List.concat_eq_append, attributeBytes, List.flatMap_append, encode_append]
      show attributeBytes init ++ attributeBytes [a] = _
      rw [attributeBytes_cons]
      have hnil : attributeBytes [] = [] := rfl
      simp [hnil]
    rw [hquote, ← List.append_assoc, List.getLast?_concat] at hlast
    exact absurd hlast (by decide)

/-- The event of a tag that opens. -/
theorem tagEvent_of_getLast? {tag : Bytes} (h : (tag.getLast? == some (byte '/')) = false) :
    tagEvent tag
      = (.opening (stringLossy (tagName tag)) (tagAttributes tag), some (tagName tag)) := by
  unfold tagEvent
  rw [h, if_neg Bool.false_ne_true]

/-- The event of a tag that stands alone. -/
theorem tagEvent_slash (tag : Bytes) :
    tagEvent (tag ++ [byte '/'])
      = (.standing (stringLossy (tagName tag)) (tagAttributes tag), none) := by
  have hlast : ((tag ++ [byte '/']).getLast? == some (byte '/')) = true := by
    rw [List.getLast?_concat]
    exact beq_self_eq_true _
  unfold tagEvent
  rw [hlast, if_pos rfl, List.dropLast_concat]

theorem tagEvent_opening {name : String} {attributes : List (String × String)}
    (h : WrittenTag name attributes) :
    tagEvent (tagBytes name attributes)
      = (.opening name (some attributes), some (bytesOf name)) := by
  rw [tagEvent_of_getLast? (getLast?_tagBytes h.name attributes), tagName_tagBytes h,
    tagAttributes_tagBytes h, stringLossy_bytesOf]

theorem tagEvent_standing {name : String} {attributes : List (String × String)}
    (h : WrittenTag name attributes) :
    tagEvent (tagBytes name attributes ++ [byte '/'])
      = (.standing name (some attributes), none) := by
  rw [tagEvent_slash, tagName_tagBytes h, tagAttributes_tagBytes h, stringLossy_bytesOf]

end MotifQuery.Xml
