import Mathlib.Data.List.Basic
import MotifQuery.Proofs.Xml.Steps

/-!
# `MotifQuery.Proofs.Xml.Respelled`: the two spellings of an empty element

An element without content is one tag that stands alone, or an opening tag with the closing
tag right after it. Two documents are `Respelled` when they differ only in the spelling of
empty elements; which elements may differ can depend on their tag and on the elements
around them. The reader makes rows of events of them that differ in the same way
(`Respelled.readEvents`): the same fault, and one standing event for an opening and a
closing one.
-/

set_option autoImplicit false

namespace MotifQuery.Xml

open Text

/-! ### Rows of events -/

/-- Does the event leave the open elements as they are? -/
def Event.isFlat : Event → Bool
  | .opening _ _ | .closing _ => false
  | _ => true

/-- The names of the open elements, the inner ones first, before and after an event. -/
inductive Event.Leads : List String → Event → List String → Prop where
  | opening {around : List String} {name : String} {attributes : AttributeList} :
      Leads around (.opening name attributes) (name :: around)
  | closing {around : List String} {name : String} : Leads (name :: around) (.closing name) around
  | flat {around : List String} {e : Event} (h : e.isFlat = true) : Leads around e around

/-- The events of an empty element, by its spelling. -/
def emptyEvents (name : String) (attributes : AttributeList) : List (List Event) :=
  [[.standing name attributes], [.opening name attributes, .closing name]]

/-- Which empty elements may be spelled in either way, given the names of the elements around
them, their own name and their attributes. -/
abbrev Respellable :=
  List String → String → AttributeList → Prop

section
variable (may : Respellable)

/-- Two rows of events that differ only in the spelling of empty elements. -/
inductive SameElements : List String → List Event → List Event → Prop where
  | same (around : List String) (es : List Event) : SameElements around es es
  | event {around around' : List String} {e : Event} {es es' : List Event}
      (h : e.Leads around around') (hes : SameElements around' es es') :
      SameElements around (e :: es) (e :: es')
  | empty {around : List String} {name : String} {attributes : AttributeList}
      {spelling spelling' es es' : List Event} (h : may around name attributes)
      (hs : spelling ∈ emptyEvents name attributes) (hs' : spelling' ∈ emptyEvents name attributes)
      (hes : SameElements around es es') :
      SameElements around (spelling ++ es) (spelling' ++ es')

/-- Two readings that differ only in the spelling of empty elements. -/
structure Reading.Same (around : List String) (r r' : Reading) : Prop where
  events : SameElements may around r.events r'.events
  malformed : r.malformed = r'.malformed

end

namespace Reading.Same

variable {may : Respellable} {around around' : List String} {r r' : Reading}

theorem refl (around : List String) (r : Reading) : Reading.Same may around r r :=
  ⟨.same around r.events, rfl⟩

theorem cons {e : Event} (h : e.Leads around around') (hr : Reading.Same may around' r r') :
    Reading.Same may around (r.cons e) (r'.cons e) :=
  ⟨.event h hr.events, hr.malformed⟩

theorem prepend {es : List Event} (h : ∀ e ∈ es, e.isFlat = true)
    (hr : Reading.Same may around r r') :
    Reading.Same may around (r.prepend es) (r'.prepend es) := by
  induction es with
  | nil => exact hr
  | cons e es ih =>
    exact (ih fun e' he' => h e' (List.mem_cons_of_mem e he')).cons
      (.flat (h e List.mem_cons_self))

end Reading.Same

theorem textEvents_flat (content : Bytes) : ∀ e ∈ textEvents content, e.isFlat = true := by
  intro e he
  rw [textEvents] at he
  split at he
  · cases he
  · rw [List.mem_singleton.1 he]
    rfl

/-! ### Markup -/

/-- The open elements, by the bytes of their names, before and after the bytes of one tag,
comment, instruction or the like, given from behind its `<`. -/
inductive Markup : List Bytes → Bytes → List Bytes → Prop where
  | tag {opened : List Bytes} {tag : Bytes} (h : IsTag tag) :
      Markup opened (tag ++ [byte '>']) ((tagEvent tag).2.toList ++ opened)
  | slash {opened : List Bytes} {name : Bytes} (h : byte '>' ∉ name) :
      Markup opened (byte '/' :: (name ++ [byte '>'])) opened.tail
  | question {opened : List Bytes} {content : Bytes} (h : byte '>' ∉ content) :
      Markup opened (byte '?' :: (content ++ [byte '>'])) opened
  | bang {opened : List Bytes} {content : Bytes} {e : Event}
      (h : readBang (byte '!' :: content) = some (e, [])) :
      Markup opened (byte '!' :: content) opened

theorem Markup.length_pos {opened opened' : List Bytes} {piece : Bytes}
    (h : Markup opened piece opened') : 0 < piece.length := by
  cases h <;> simp

theorem readBang_flat {bs rest : Bytes} {e : Event} (h : readBang bs = some (e, rest)) :
    e.isFlat = true := by
  unfold readBang at h
  repeat' split at h
  all_goals first
    | cases h; done
    | cases h; rfl

theorem questionEvent?_flat {bs : Bytes} {e : Event} (h : questionEvent? bs = some e) :
    e.isFlat = true := by
  unfold questionEvent? at h
  split at h
  · cases h
    rfl
  · cases h

theorem leads_tagEvent (opened : List Bytes) (tag : Bytes) :
    (tagEvent tag).1.Leads (opened.map stringLossy)
      (((tagEvent tag).2.toList ++ opened).map stringLossy) := by
  unfold tagEvent
  dsimp only
  split
  · exact .flat rfl
  · exact .opening

section
variable {may : Respellable} {broken : Bool} {n m : Nat} {opened opened' : List Bytes}
  {piece doc doc' : Bytes}

/-- The same markup before two documents leads to the same event or to the same fault. -/
theorem Markup.same (h : Markup opened piece opened')
    (hread : Reading.Same may (opened'.map stringLossy) (readContent broken n opened' doc)
      (readContent broken m opened' doc')) :
    Reading.Same may (opened.map stringLossy) (readTag broken (n + 1) opened (piece ++ doc))
      (readTag broken (m + 1) opened (piece ++ doc')) := by
  -- a closing tag or an instruction that is refused ends both readings
  cases h with
  | tag h =>
    simp only [List.append_assoc, List.singleton_append]
    rw [readTag_tag n opened doc h, readTag_tag m opened doc' h]
    exact hread.cons (leads_tagEvent opened _)
  | slash h =>
    simp only [List.cons_append, List.append_assoc, List.nil_append]
    rw [readTag_slash n opened doc h, readTag_slash m opened doc' h]
    cases opened with
    | nil => exact .refl _ _
    | cons expected opened =>
      split
      · next hname =>
        cases hname
        exact hread.cons .closing
      · exact .refl _ _
  | question h =>
    simp only [List.cons_append, List.append_assoc, List.nil_append]
    rw [readTag_question n opened doc h, readTag_question m opened doc' h]
    split
    · next hevent => exact hread.cons (.flat (questionEvent?_flat hevent))
    · exact .refl _ _
  | @bang content e h =>
    have hbang : ∀ k rest, readTag broken (k + 1) opened (byte '!' :: content ++ rest)
        = (readContent broken k opened rest).cons e := by
      intro k rest
      have hread := readBang_append rest h
      rw [List.nil_append, List.cons_append] at hread
      rw [List.cons_append, readTag, beq_self_eq_true, if_pos rfl, hread]
    rw [hbang, hbang]
    exact hread.cons (.flat (readBang_flat h))

end

/-! ### Documents -/

/-- The bytes of a tag, between its angle brackets and without a slash at the end, whose name
can stand in a closing tag. -/
structure EmptyTag (tag : Bytes) : Prop where
  isTag : IsTag tag
  last : (tag.getLast? == some (byte '/')) = false
  bracket : byte '>' ∉ tagName tag
  blank : ∀ b ∈ tagName tag, isAsciiBlank b = false

/-- An empty element from behind its first `<`, by its spelling: `e/>` and `e></e>`. -/
def emptyBytes (tag : Bytes) : List Bytes :=
  [tag ++ [byte '/', byte '>'],
    tag ++ byte '>' :: byte '<' :: byte '/' :: (tagName tag ++ [byte '>'])]

/-- Two documents that differ only in the spelling of empty elements. -/
inductive Respelled (may : Respellable) : List Bytes → Bytes → Bytes → Prop where
  | same (opened : List Bytes) (doc : Bytes) : Respelled may opened doc doc
  | markup {opened opened' : List Bytes} {content piece doc doc' : Bytes}
      (hcontent : byte '<' ∉ content) (h : Markup opened piece opened')
      (hdoc : Respelled may opened' doc doc') :
      Respelled may opened (content ++ byte '<' :: (piece ++ doc))
        (content ++ byte '<' :: (piece ++ doc'))
  | empty {opened : List Bytes} {content tag spelling spelling' doc doc' : Bytes}
      (hcontent : byte '<' ∉ content) (htag : EmptyTag tag)
      (h : may (opened.map stringLossy) (stringLossy (tagName tag)) (tagAttributes tag))
      (hs : spelling ∈ emptyBytes tag) (hs' : spelling' ∈ emptyBytes tag)
      (hdoc : Respelled may opened doc doc') :
      Respelled may opened (content ++ byte '<' :: (spelling ++ doc))
        (content ++ byte '<' :: (spelling' ++ doc'))

section
variable {may : Respellable} {broken : Bool} {opened : List Bytes} {doc doc' : Bytes}

/-- In either spelling an empty element is read to its end, and nothing is left open. -/
theorem readTag_empty (broken : Bool) (opened : List Bytes) (doc : Bytes) {tag spelling : Bytes}
    (htag : EmptyTag tag) (hs : spelling ∈ emptyBytes tag) {n : Nat}
    (hn : (spelling ++ doc).length < n) :
    ∃ es ∈ emptyEvents (stringLossy (tagName tag)) (tagAttributes tag),
      readTag broken n opened (spelling ++ doc)
        = (readContent broken (doc.length + 1) opened doc).prepend es := by
  rw [emptyBytes, List.mem_cons, List.mem_singleton] at hs
  rcases hs with rfl | rfl
  · -- one tag, with the slash at its end
    simp only [List.length_append, List.length_cons] at hn
    obtain ⟨k, rfl⟩ : ∃ k, n = k + 1 := ⟨n - 1, by omega⟩
    have hread : readTag broken (k + 1) opened (tag ++ [byte '/'] ++ byte '>' :: doc) = _ :=
      readTag_tag k opened doc htag.isTag.slash
    rw [tagEvent_slash, List.append_assoc] at hread
    refine ⟨_, List.mem_cons_self, ?_⟩
    rw [List.append_assoc, readContent_fuel (Nat.lt_succ_self _) (by omega : doc.length < k)]
    exact hread
  · -- two tags with nothing between them
    simp only [List.length_append, List.length_cons] at hn
    obtain ⟨k, rfl⟩ : ∃ k, n = k + 3 := ⟨n - 3, by omega⟩
    have hbytes : tag ++ byte '>' :: byte '<' :: byte '/' :: (tagName tag ++ [byte '>']) ++ doc
        = tag ++ byte '>' :: ([] ++ byte '<' :: byte '/' :: (tagName tag ++ byte '>' :: doc)) := by
      simp only [List.append_assoc, List.cons_append, List.nil_append]
    refine ⟨_, List.mem_cons_of_mem _ List.mem_cons_self, ?_⟩
    rw [hbytes, readTag_tag (k + 2) opened _ htag.isTag, tagEvent_of_getLast? htag.last,
      readContent_markup (k + 1) _ _ List.not_mem_nil, readTag_slash k _ doc htag.bracket,
      closingName_of_not_blank htag.blank,
      readContent_fuel (Nat.lt_succ_self _) (by omega : doc.length < k)]
    -- the tag that closes finds its own name on top
    exact congrArg (Reading.cons _) (if_pos List.head?_cons)

/-- Respelled documents are read alike, with the open elements around them. -/
theorem Respelled.readContent (h : Respelled may opened doc doc') {n m : Nat}
    (hn : doc.length < n) (hm : doc'.length < m) :
    Reading.Same may (opened.map stringLossy) (readContent broken n opened doc)
      (readContent broken m opened doc') := by
  -- along the markup that the documents share; each has its own number of steps left
  induction h generalizing n m with
  | same opened doc =>
    rw [readContent_fuel hn hm]
    exact .refl _ _
  | markup hcontent h hdoc ih =>
    simp only [List.length_append, List.length_cons] at hn hm
    obtain ⟨k, rfl⟩ : ∃ k, n = k + 2 := ⟨n - 2, by omega⟩
    obtain ⟨j, rfl⟩ : ∃ j, m = j + 2 := ⟨m - 2, by omega⟩
    rw [readContent_markup (k + 1) _ _ hcontent, readContent_markup (j + 1) _ _ hcontent]
    have hpiece := h.length_pos
    exact .prepend (textEvents_flat _) (h.same (ih (by omega) (by omega)))
  | @empty opened content tag spelling spelling' doc doc' hcontent htag h hs hs' hdoc ih =>
    simp only [List.length_append, List.length_cons] at hn hm
    obtain ⟨k, rfl⟩ : ∃ k, n = k + 1 := ⟨n - 1, by omega⟩
    obtain ⟨j, rfl⟩ : ∃ j, m = j + 1 := ⟨m - 1, by omega⟩
    have hk : (spelling ++ doc).length < k := by
      rw [List.length_append]
      omega
    have hj : (spelling' ++ doc').length < j := by
      rw [List.length_append]
      omega
    obtain ⟨es, hes, hread⟩ := readTag_empty broken opened doc htag hs hk
    obtain ⟨es', hes', hread'⟩ := readTag_empty broken opened doc' htag hs' hj
    have hsame := ih (Nat.lt_succ_self _) (Nat.lt_succ_self _)
    rw [readContent_markup k _ _ hcontent, readContent_markup j _ _ hcontent, hread, hread']
    exact .prepend (textEvents_flat _) ⟨.empty h hes hes' hsame.events, hsame.malformed⟩

/-- The byte order mark is cut off the bytes before the first markup. -/
theorem dropByteOrderMark_markup {content : Bytes} (h : byte '<' ∉ content) :
    ∃ content', byte '<' ∉ content' ∧ ∀ rest,
      dropByteOrderMark (content ++ byte '<' :: rest) = content' ++ byte '<' :: rest := by
  by_cases hmark : ∃ cs, byteOrderMark ++ cs = content
  · obtain ⟨cs, rfl⟩ := hmark
    refine ⟨cs, fun hmem => h (List.mem_append_right _ hmem), fun rest => ?_⟩
    have hdrop : byteOrderMark.isPrefixOf? (byteOrderMark ++ cs ++ byte '<' :: rest)
        = some (cs ++ byte '<' :: rest) :=
      List.isPrefixOf?_eq_some_iff_append_eq.2 (List.append_assoc _ _ _).symm
    rw [dropByteOrderMark, hdrop, Option.getD_some]
  · refine ⟨content, h, fun rest => ?_⟩
    have hnone : byteOrderMark.isPrefixOf? (content ++ byte '<' :: rest) = none := by
      refine Option.eq_none_iff_forall_ne_some.2 fun cs hcs => ?_
      rcases List.append_eq_append_iff.1 (List.isPrefixOf?_eq_some_iff_append_eq.1 hcs)
        with ⟨ds, rfl, -⟩ | ⟨ds, hds, hrest⟩
      · exact hmark ⟨ds, rfl⟩
      · -- the mark would reach into the markup, whose first byte it does not hold
        cases ds with
        | nil => exact hmark ⟨[], by rw [List.append_nil, hds, List.append_nil]⟩
        | cons d ds =>
          obtain ⟨rfl, -⟩ := List.cons_eq_cons.1 hrest
          have hmem : byte '<' ∈ byteOrderMark := by
            rw [hds]
            exact List.mem_append_right _ List.mem_cons_self
          exact absurd hmem (by decide)
    rw [dropByteOrderMark, hnone, Option.getD_none]

theorem Respelled.dropByteOrderMark (h : Respelled may opened doc doc') :
    Respelled may opened (dropByteOrderMark doc) (dropByteOrderMark doc') := by
  cases h with
  | same => exact .same _ _
  | markup hcontent h hdoc =>
    obtain ⟨content', hcontent', hdrop⟩ := dropByteOrderMark_markup hcontent
    rw [hdrop, hdrop]
    exact .markup hcontent' h hdoc
  | empty hcontent htag h hs hs' hdoc =>
    obtain ⟨content', hcontent', hdrop⟩ := dropByteOrderMark_markup hcontent
    rw [hdrop, hdrop]
    exact .empty hcontent' htag h hs hs' hdoc

theorem Respelled.readEvents (h : Respelled may [] doc doc') :
    Reading.Same may [] (readEvents broken doc) (readEvents broken doc') :=
  h.dropByteOrderMark.readContent (by omega) (by omega)

end

/-! ### Documents of written tags -/

section
variable {may : Respellable} {opened : List Bytes} {doc doc' : Bytes} {name : String}
  {attributes : List (String × String)}

theorem emptyTag_tagBytes (h : WrittenTag name attributes) :
    EmptyTag (tagBytes name attributes) where
  isTag := isTag_tagBytes h
  last := getLast?_tagBytes h.name attributes
  bracket := by
    rw [tagName_tagBytes h]
    exact byte_not_mem_name h.name (by decide) rfl
  blank := by
    rw [tagName_tagBytes h]
    exact fun b hb => isAsciiBlank_of_mem_name h.name hb

theorem Respelled.opening (h : WrittenTag name attributes)
    (hdoc : Respelled may (bytesOf name :: opened) doc doc') :
    Respelled may opened (byte '<' :: (tagBytes name attributes ++ byte '>' :: doc))
      (byte '<' :: (tagBytes name attributes ++ byte '>' :: doc')) := by
  have hopened : (tagEvent (tagBytes name attributes)).2.toList ++ opened
      = bytesOf name :: opened := by
    rw [tagEvent_opening h]
    rfl
  have hmarkup : Markup opened (tagBytes name attributes ++ [byte '>']) _ :=
    .tag (isTag_tagBytes h)
  rw [hopened] at hmarkup
  have hrespelled := Respelled.markup List.not_mem_nil hmarkup hdoc
  rw [List.append_assoc, List.append_assoc] at hrespelled
  exact hrespelled

theorem Respelled.standing (h : WrittenTag name attributes)
    (hmay : may (opened.map stringLossy) name (some attributes))
    (hdoc : Respelled may opened doc doc') :
    Respelled may opened
      (byte '<' :: (tagBytes name attributes ++ byte '/' :: byte '>' :: doc))
      (byte '<' :: (tagBytes name attributes ++ byte '>' :: byte '<' :: byte '/' ::
        (bytesOf name ++ byte '>' :: doc'))) := by
  have hempty : may (opened.map stringLossy) (stringLossy (tagName (tagBytes name attributes)))
      (tagAttributes (tagBytes name attributes)) := by
    rw [tagName_tagBytes h, tagAttributes_tagBytes h, stringLossy_bytesOf]
    exact hmay
  have hrespelled := Respelled.empty List.not_mem_nil (emptyTag_tagBytes h) hempty
    List.mem_cons_self (List.mem_cons_of_mem _ List.mem_cons_self) hdoc
  rw [tagName_tagBytes h] at hrespelled
  simpa only [List.append_assoc, List.cons_append, List.nil_append] using hrespelled

end

end MotifQuery.Xml
