import MotifQuery.Proofs.Xml.Steps

/-!
# `MotifQuery.Proofs.Xml.RoundTrip`: events read back from a document

`Nests` says which rows of events can be written and read back: tags pair, and text stands
right before a closing tag. `readEvents_render` reads such a row back after a declaration,
with `Event.readBack` saying what may change: text loses the blanks around it, and blank
text is lost.
-/

set_option autoImplicit false

namespace MotifQuery.Xml

open Text

/-- What reading gives for an event that was written. -/
def Event.readBack : Event → List Event
  | .text content =>
    let cs := stripped (content.getD "").toList
    if cs.isEmpty then [] else [.text (some (String.ofList cs))]
  | .declaration => [.remark]
  | e => [e]

/-- The rows of events that close the open tags in order. -/
inductive Nests : List String → List Event → Prop where
  | nil {opened : List String} : Nests opened []
  | opening {opened : List String} {name : String} {attributes : List (String × String)}
      {es : List Event} (h : WrittenTag name attributes) (hes : Nests (name :: opened) es) :
      Nests opened (.opening name (some attributes) :: es)
  | standing {opened : List String} {name : String} {attributes : List (String × String)}
      {es : List Event} (h : WrittenTag name attributes) (hes : Nests opened es) :
      Nests opened (.standing name (some attributes) :: es)
  | closing {opened : List String} {name : String} {es : List Event}
      (h : isName name = true) (hes : Nests opened es) :
      Nests (name :: opened) (.closing name :: es)
  | text {opened : List String} {name content : String} {es : List Event}
      (h : isName name = true) (hes : Nests opened es) :
      Nests (name :: opened) (.text (some content) :: .closing name :: es)

/-! ### Rows that close what they open -/

/-- Wherever the row stands, it closes every tag that it opens. -/
def Balanced (es : List Event) : Prop :=
  ∀ (opened : List String) (fs : List Event), Nests opened fs → Nests opened (es ++ fs)

theorem balanced_nil : Balanced [] :=
  fun _ _ h => h

theorem Balanced.append {es fs : List Event} (h : Balanced es) (h' : Balanced fs) :
    Balanced (es ++ fs) := by
  intro opened gs hgs
  rw [List.append_assoc]
  exact h _ _ (h' _ _ hgs)

theorem balanced_flatMap {α : Type} {f : α → List Event} {xs : List α}
    (h : ∀ x ∈ xs, Balanced (f x)) : Balanced (xs.flatMap f) := by
  induction xs with
  | nil => exact balanced_nil
  | cons x rest ih =>
    rw [List.flatMap_cons]
    refine (h x List.mem_cons_self).append ?_
    exact ih fun y hy => h y (List.mem_cons_of_mem x hy)

theorem balanced_standing {name : String} {attributes : List (String × String)}
    (h : WrittenTag name attributes) : Balanced [.standing name (some attributes)] :=
  fun _ _ hfs => Nests.standing h hfs

/-- An element around a balanced row. -/
theorem balanced_element {name : String} {attributes : List (String × String)}
    {es : List Event} (h : WrittenTag name attributes) (hes : Balanced es) :
    Balanced (.opening name (some attributes) :: es ++ [.closing name]) := by
  intro opened fs hfs
  rw [List.append_assoc, List.cons_append]
  exact Nests.opening h (hes _ _ (Nests.closing h.name hfs))

/-- An element around a text. -/
theorem balanced_text {name : String} {attributes : List (String × String)} (content : String)
    (h : WrittenTag name attributes) :
    Balanced [.opening name (some attributes), .text (some content), .closing name] :=
  fun _ _ hfs => Nests.opening h (Nests.text h.name hfs)

/-! ### One step of the reader -/

/-- Blanks before a tag are skipped. -/
theorem readContent_tag {lead : Bytes} (h : ∀ b ∈ lead, isSpace b = true) (fuel : Nat)
    (opened : List Bytes) (rest : Bytes) :
    readContent false (fuel + 1) opened (lead ++ byte '<' :: rest)
      = readTag false fuel opened rest := by
  have hmarkup : byte '<' ∉ lead := fun hmem => absurd (h _ hmem) (by decide)
  rw [readContent_markup fuel opened rest hmarkup, textEvents_blank h]
  rfl

/-- The event of a text that was written is the text without the blanks around it. -/
theorem textEvents_escape {cs : List Char} (h : stripped cs ≠ []) :
    textEvents (encode (escape cs)) = [.text (some (String.ofList (stripped cs)))] := by
  have hbytes : encode (escape (cs.dropWhile isSpaceChar)) ≠ [] := by
    cases hcs : cs.dropWhile isSpaceChar with
    | nil =>
      refine absurd ?_ h
      rw [stripped, hcs]
      rfl
    | cons c ds =>
      intro hnil
      obtain ⟨d, es, hescape⟩ := List.exists_cons_of_ne_nil (escapeChar_ne_nil c)
      have hcons : escape (c :: ds) = d :: (es ++ escape ds) := by
        show escapeChar c ++ escape ds = _
        rw [hescape, List.cons_append]
      rw [hcons, encode_cons, List.append_eq_nil_iff] at hnil
      exact encodeChar_ne_nil d hnil.1
  have htext := readText (stripped cs)
  rw [textEvents, dropSpaces_encode_escape]
  rw [List.isEmpty_eq_false_iff.2 hbytes, if_neg Bool.false_ne_true, dropEnd_encode_escape]
  show [Event.text (((decode? (encode (escape (stripped cs)))).bind unescape?).map String.ofList)]
    = _
  rw [htext]
  rfl

/-- Blank text is written as blanks. -/
theorem isSpace_of_stripped_eq_nil {cs : List Char} (h : stripped cs = []) :
    ∀ b ∈ encode (escape cs), isSpace b = true := by
  have hdrop : cs.dropWhile isSpaceChar = [] := stripped_eq_nil_iff.1 h
  have hbytes := dropSpaces_encode_escape cs
  rw [hdrop] at hbytes
  exact List.dropWhile_eq_nil_iff.1 hbytes

/-- Text before a tag is read without the blanks around it. -/
theorem readContent_text {cs : List Char} (h : stripped cs ≠ []) (fuel : Nat)
    (opened : List Bytes) (rest : Bytes) :
    readContent false (fuel + 1) opened (encode (escape cs) ++ byte '<' :: rest)
      = (readTag false fuel opened rest).cons (.text (some (String.ofList (stripped cs)))) := by
  rw [readContent_markup fuel opened rest (byte_not_mem_encode_escape (by decide) rfl _),
    textEvents_escape h]
  rfl

theorem readTag_opening {name : String} {attributes : List (String × String)}
    (h : WrittenTag name attributes) (fuel : Nat) (opened : List Bytes) (rest : Bytes) :
    readTag false (fuel + 1) opened (tagBytes name attributes ++ byte '>' :: rest)
      = (readContent false fuel (bytesOf name :: opened) rest).cons
          (.opening name (some attributes)) := by
  rw [readTag_tag fuel opened rest (isTag_tagBytes h), tagEvent_opening h]
  rfl

theorem readTag_standing {name : String} {attributes : List (String × String)}
    (h : WrittenTag name attributes) (fuel : Nat) (opened : List Bytes) (rest : Bytes) :
    readTag false (fuel + 1) opened
        (tagBytes name attributes ++ byte '/' :: byte '>' :: rest)
      = (readContent false fuel opened rest).cons (.standing name (some attributes)) := by
  -- the slash belongs to the bytes of the tag
  have htag : readTag false (fuel + 1) opened
      (tagBytes name attributes ++ [byte '/'] ++ byte '>' :: rest) = _ :=
    readTag_tag fuel opened rest (isTag_tagBytes h).slash
  rw [tagEvent_standing h, List.append_assoc] at htag
  exact htag

theorem closingName_bytesOf {name : String} (h : isName name = true) :
    closingName (bytesOf name) = bytesOf name :=
  closingName_of_not_blank fun _ => isAsciiBlank_of_mem_name h

theorem readTag_closing {name : String} (h : isName name = true) (fuel : Nat)
    (opened : List Bytes) (rest : Bytes) :
    readTag false (fuel + 1) (bytesOf name :: opened)
        (byte '/' :: (bytesOf name ++ byte '>' :: rest))
      = (readContent false fuel opened rest).cons (.closing name) := by
  rw [readTag_slash fuel _ rest (byte_not_mem_name h (by decide) rfl), closingName_bytesOf h,
    if_pos List.head?_cons, stringLossy_bytesOf, List.tail_cons]

/-! ### Rows of events -/

theorem isSpace_of_mem_lead {l : Layout} {b : UInt8} (h : b ∈ encode l.lead) :
    isSpace b = true := by
  obtain ⟨c, hc, hb⟩ := List.mem_flatMap.1 h
  rw [isSpace_of_mem_encodeChar hb]
  unfold Layout.lead at hc
  split at hc
  · rcases List.mem_cons.1 hc with rfl | hc
    · rfl
    · rw [List.eq_of_mem_replicate hc]
      rfl
  · cases hc

theorem encode_opening (l : Layout) (name : String) (attributes : List (String × String))
    (es : List Event) :
    encode (renderFrom l (.opening name (some attributes) :: es))
      = encode l.lead ++ byte '<' :: (tagBytes name attributes ++ byte '>' ::
          encode (renderFrom ⟨l.depth + 1, true⟩ es)) := by
  have hchars : renderFrom l (.opening name (some attributes) :: es)
      = l.lead ++ '<' :: (tagChars name (some attributes) ++ '>' ::
          renderFrom ⟨l.depth + 1, true⟩ es) := by
    show l.lead ++ '<' :: tagChars name (some attributes) ++ ['>']
      ++ renderFrom ⟨l.depth + 1, true⟩ es = _
    simp only [List.append_assoc, List.cons_append, List.nil_append]
  rw [hchars, encode_append, encode_cons_of_lt (by decide), encode_append,
    encode_cons_of_lt (by decide), tagBytes]

theorem encode_standing (l : Layout) (name : String) (attributes : List (String × String))
    (es : List Event) :
    encode (renderFrom l (.standing name (some attributes) :: es))
      = encode l.lead ++ byte '<' :: (tagBytes name attributes ++ byte '/' :: byte '>' ::
          encode (renderFrom ⟨l.depth, true⟩ es)) := by
  have hchars : renderFrom l (.standing name (some attributes) :: es)
      = l.lead ++ '<' :: (tagChars name (some attributes) ++ '/' :: '>' ::
          renderFrom ⟨l.depth, true⟩ es) := by
    show l.lead ++ '<' :: tagChars name (some attributes) ++ ['/', '>']
      ++ renderFrom ⟨l.depth, true⟩ es = _
    simp only [List.append_assoc, List.cons_append, List.nil_append]
  rw [hchars, encode_append, encode_cons_of_lt (by decide), encode_append,
    encode_cons_of_lt (by decide), encode_cons_of_lt (by decide), tagBytes]

theorem encode_closing (l : Layout) (name : String) (es : List Event) :
    encode (renderFrom l (.closing name :: es))
      = encode (Layout.lead { l with depth := l.depth - 1 }) ++ byte '<' :: byte '/' ::
          (bytesOf name ++ byte '>' :: encode (renderFrom ⟨l.depth - 1, true⟩ es)) := by
  have hchars : renderFrom l (.closing name :: es)
      = Layout.lead { l with depth := l.depth - 1 } ++ '<' :: '/' ::
          (name.toList ++ '>' :: renderFrom ⟨l.depth - 1, true⟩ es) := by
    show Layout.lead { l with depth := l.depth - 1 } ++ '<' :: '/' :: name.toList ++ ['>']
      ++ renderFrom ⟨l.depth - 1, true⟩ es = _
    simp only [List.append_assoc, List.cons_append, List.nil_append]
  rw [hchars, encode_append, encode_cons_of_lt (by decide), encode_cons_of_lt (by decide),
    encode_append, encode_cons_of_lt (by decide), bytesOf]

/-- Directly after text no line is broken. -/
theorem encode_text (l : Layout) (content name : String) (es : List Event) :
    encode (renderFrom l (.text (some content) :: .closing name :: es))
      = encode (escape content.toList) ++ byte '<' :: byte '/' ::
          (bytesOf name ++ byte '>' :: encode (renderFrom ⟨l.depth - 1, true⟩ es)) := by
  have hrender : renderFrom l (.text (some content) :: .closing name :: es)
      = escape content.toList ++ renderFrom ⟨l.depth, false⟩ (.closing name :: es) := rfl
  rw [hrender, encode_append, encode_closing]
  rfl

/-- A row of events that nests is read back, with the open tags around it. -/
theorem readContent_renderFrom {opened : List String} {es : List Event} (h : Nests opened es)
    {l : Layout} {fuel : Nat} (hfuel : 2 * (encode (renderFrom l es)).length < fuel) :
    readContent false fuel (opened.map bytesOf) (encode (renderFrom l es))
      = ⟨es.flatMap Event.readBack, false⟩ := by
  -- a tag takes two steps of the reader and more than two bytes
  induction h generalizing l fuel with
  | nil =>
    cases fuel with
    | zero => exact absurd hfuel (Nat.not_lt_zero _)
    | succ fuel => rfl
  | opening h hes ih =>
    rw [encode_opening] at hfuel ⊢
    simp only [List.length_append, List.length_cons] at hfuel
    obtain ⟨k, rfl⟩ : ∃ k, fuel = k + 2 := ⟨fuel - 2, by omega⟩
    rw [readContent_tag (fun _ => isSpace_of_mem_lead), readTag_opening h]
    rw [← List.map_cons, ih (by omega)]
    rfl
  | standing h hes ih =>
    rw [encode_standing] at hfuel ⊢
    simp only [List.length_append, List.length_cons] at hfuel
    obtain ⟨k, rfl⟩ : ∃ k, fuel = k + 2 := ⟨fuel - 2, by omega⟩
    rw [readContent_tag (fun _ => isSpace_of_mem_lead), readTag_standing h, ih (by omega)]
    rfl
  | closing h hes ih =>
    rw [encode_closing] at hfuel ⊢
    simp only [List.length_append, List.length_cons] at hfuel
    obtain ⟨k, rfl⟩ : ∃ k, fuel = k + 2 := ⟨fuel - 2, by omega⟩
    rw [readContent_tag (fun _ => isSpace_of_mem_lead), List.map_cons, readTag_closing h,
      ih (by omega)]
    rfl
  | @text opened name content es h hes ih =>
    rw [encode_text] at hfuel ⊢
    simp only [List.length_append, List.length_cons] at hfuel
    obtain ⟨k, rfl⟩ : ∃ k, fuel = k + 2 := ⟨fuel - 2, by omega⟩
    have hclosing : ∀ rest, readTag false (k + 1) ((name :: opened).map bytesOf)
          (byte '/' :: (bytesOf name ++ byte '>' :: rest))
        = (readContent false k (opened.map bytesOf) rest).cons (.closing name) := fun rest =>
      readTag_closing h k _ rest
    by_cases hcs : stripped content.toList = []
    · -- blank text is skipped like the blanks before a tag
      have hblank := isSpace_of_stripped_eq_nil hcs
      rw [readContent_tag hblank, hclosing, ih (by omega)]
      simp [Event.readBack, hcs, Reading.cons]
    · rw [readContent_text hcs, hclosing, ih (by omega)]
      have hne : (stripped content.toList).isEmpty = false := List.isEmpty_eq_false_iff.2 hcs
      simp [Event.readBack, hne, Reading.cons]

/-! ### Documents -/

/-- The declaration between its angle brackets. -/
def declarationChars : List Char :=
  "?xml version=\"1.0\" encoding=\"UTF-8\"?".toList

theorem encode_declaration (es : List Event) :
    encode (renderFrom {} (.declaration :: es))
      = byte '<' :: (encode declarationChars ++ byte '>' :: encode (renderFrom ⟨0, true⟩ es)) := by
  have hchars : renderFrom {} (.declaration :: es)
      = '<' :: (declarationChars ++ '>' :: renderFrom ⟨0, true⟩ es) := rfl
  rw [hchars, encode_cons_of_lt (by decide), encode_append, encode_cons_of_lt (by decide)]

/-- A declaration is read like any processing instruction. -/
theorem readTag_declaration (fuel : Nat) (opened : List Bytes) (rest : Bytes) :
    readTag false (fuel + 1) opened (encode declarationChars ++ byte '>' :: rest)
      = (readContent false fuel opened rest).cons .remark := by
  have hend : byte '>' ∉ encode declarationChars := toUInt8_not_mem_encode (by decide) (by decide)
  have hevent : questionEvent? (encode declarationChars) = some .remark := by decide
  obtain ⟨cs, hchars⟩ : ∃ cs, declarationChars = '?' :: cs := ⟨_, rfl⟩
  rw [hchars, encode_cons_of_lt (by decide)] at hend hevent ⊢
  rw [List.cons_append, readTag_question fuel opened rest (List.not_mem_of_not_mem_cons hend),
    hevent]

/-- A document with a declaration is read back event by event. -/
theorem readEvents_render {es : List Event} (h : Nests [] es) :
    readEvents false (bytesOf (render (.declaration :: es)))
      = ⟨(Event.declaration :: es).flatMap Event.readBack, false⟩ := by
  have hbytes : bytesOf (render (.declaration :: es))
      = encode (renderFrom {} (.declaration :: es)) := by
    rw [bytesOf, render, String.toList_ofList]
  have hmark : dropByteOrderMark (encode (renderFrom {} (.declaration :: es)))
      = encode (renderFrom {} (.declaration :: es)) := by
    rw [encode_declaration]
    rfl
  have hempty : ∀ b ∈ ([] : Bytes), isSpace b = true := fun b hb => by cases hb
  unfold readEvents
  dsimp only
  rw [hbytes, hmark, encode_declaration]
  simp only [List.length_cons, List.length_append]
  -- two steps of fuel go to the declaration
  obtain ⟨k, hk⟩ : ∃ k, 2 * ((encode declarationChars).length
      + ((encode (renderFrom ⟨0, true⟩ es)).length + 1) + 1) + 2 = k + 2 := ⟨_, rfl⟩
  rw [hk]
  have htag := readContent_tag hempty (k + 1) []
    (encode declarationChars ++ byte '>' :: encode (renderFrom ⟨0, true⟩ es))
  rw [List.nil_append] at htag
  have hrest := @readContent_renderFrom _ _ h ⟨0, true⟩ k (by omega)
  rw [List.map_nil] at hrest
  rw [htag, readTag_declaration, hrest]
  rfl

end MotifQuery.Xml
