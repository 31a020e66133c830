import Mathlib.Data.List.TakeWhile
import MotifQuery.Proofs.Text.Trim
import MotifQuery.Proofs.Text.Utf8
import MotifQuery.Xml.Reader

/-!
# `MotifQuery.Proofs.Xml.Escape`: escaped texts as bytes

Resolving entities undoes writing them (`unescape?_escape`), and the bytes of an escaped
text hold no markup (`byte_not_mem_encode_escape`). Blanks of the markup stay single bytes
under both encodings, so that cutting them off bytes cuts them off the text:
`dropSpaces_encode_escape` for the start and `dropEnd_encode_escape` for the end.
-/

set_option autoImplicit false

namespace MotifQuery.Xml

open Text

/-! ### Entities -/

theorem unescapeFrom_escapeChar (c : Char) (rest : List Char) :
    unescapeFrom none (escapeChar c ++ rest) = (unescapeFrom none rest).map (c :: ·) := by
  -- each entity is resolved, and no other character is an ampersand
  unfold escapeChar
  split
  · next h => rw [h]; rfl
  · split
    · next h => rw [h]; rfl
    · split
      · next h => rw [h]; rfl
      · next hamp =>
        split
        · next h => rw [h]; rfl
        · split
          · next h => rw [h]; rfl
          · rw [List.singleton_append, unescapeFrom, if_neg hamp]

/-- Resolving entities undoes writing them. -/
theorem unescape?_escape (cs : List Char) : unescape? (escape cs) = some cs := by
  unfold unescape?
  induction cs with
  | nil => rfl
  | cons c cs ih =>
    show unescapeFrom none (escapeChar c ++ escape cs) = some (c :: cs)
    rw [unescapeFrom_escapeChar, ih]
    rfl

/-- The characters that text and attribute values do not hold. -/
def isMarkup (c : Char) : Bool :=
  c == '<' || c == '>' || c == '"' || c == '\''

theorem isMarkup_of_mem_escapeChar {c d : Char} (h : d ∈ escapeChar c) : isMarkup d = false := by
  -- an entity holds no markup itself
  have hentity : ∀ entity : List Char, entity.all (fun d => !isMarkup d) = true →
      d ∈ entity → isMarkup d = false := fun entity hall hd =>
    Bool.not_eq_eq_eq_not.1 (List.all_eq_true.1 hall d hd)
  unfold escapeChar at h
  split at h
  · exact hentity _ rfl h
  · next hlt =>
    split at h
    · exact hentity _ rfl h
    · next hgt =>
      split at h
      · exact hentity _ rfl h
      · split at h
        · exact hentity _ rfl h
        · next hapos =>
          split at h
          · exact hentity _ rfl h
          · next hquot =>
            rw [List.mem_singleton.1 h]
            simp [isMarkup, hlt, hgt, hapos, hquot]

theorem isMarkup_of_mem_escape {cs : List Char} {d : Char} (h : d ∈ escape cs) :
    isMarkup d = false := by
  obtain ⟨c, -, hd⟩ := List.mem_flatMap.1 h
  exact isMarkup_of_mem_escapeChar hd

/-! ### Bytes of ASCII characters -/

theorem encode_cons_of_lt {c : Char} (h : c.toNat < 0x80) (cs : List Char) :
    encode (c :: cs) = byte c :: encode cs := by
  rw [encode_cons, encodeChar, if_pos h]
  rfl

theorem byte_not_mem_encode_escape {d : Char} (hd : d.toNat < 0x80) (hmarkup : isMarkup d = true)
    (cs : List Char) : byte d ∉ encode (escape cs) := by
  refine toUInt8_not_mem_encode hd fun hmem => ?_
  rw [isMarkup_of_mem_escape hmem] at hmarkup
  cases hmarkup

/-! ### Blanks of the markup -/

/-- The blanks of the markup. -/
def isSpaceChar (c : Char) : Bool :=
  c == ' ' || c == '\r' || c == '\n' || c == '\t'

/-- A text without the blanks of the markup around it. -/
def stripped (cs : List Char) : List Char :=
  ((cs.dropWhile isSpaceChar).reverse.dropWhile isSpaceChar).reverse

/-- Nothing is left of a text exactly when it is blank throughout. -/
theorem stripped_eq_nil_iff {cs : List Char} :
    stripped cs = [] ↔ cs.dropWhile isSpaceChar = [] := by
  unfold stripped
  rw [List.reverse_eq_nil_iff, List.dropWhile_eq_nil_iff]
  constructor
  · intro h
    cases hdrop : cs.dropWhile isSpaceChar with
    | nil => rfl
    | cons c ds =>
      -- the first character that is left is no blank
      have hhead := List.head?_dropWhile_not isSpaceChar cs
      rw [hdrop] at hhead
      have hc : isSpaceChar c = false := hhead
      rw [h c (List.mem_reverse.2 (hdrop ▸ List.mem_cons_self))] at hc
      cases hc
  · intro h c hc
    rw [h] at hc
    cases hc

theorem isBlank_of_isSpaceChar {c : Char} (h : isSpaceChar c = true) : isBlank c = true := by
  simp only [isSpaceChar, Bool.or_eq_true, beq_iff_eq] at h
  rcases h with ((rfl | rfl) | rfl) | rfl <;> rfl

/-- The blanks of the markup are among those that trimming removes. -/
theorem trim_stripped (cs : List Char) : trim (stripped cs) = trim cs := by
  have hblank : ∀ ds : List Char, Blank (ds.takeWhile isSpaceChar) := fun ds c hc =>
    isBlank_of_isSpaceChar (List.mem_takeWhile_imp hc)
  have hstart : cs.takeWhile isSpaceChar ++ cs.dropWhile isSpaceChar = cs :=
    List.takeWhile_append_dropWhile
  have hend : stripped cs
      ++ ((cs.dropWhile isSpaceChar).reverse.takeWhile isSpaceChar).reverse
        = cs.dropWhile isSpaceChar := by
    rw [stripped, ← List.reverse_append, List.takeWhile_append_dropWhile, List.reverse_reverse]
  have htrim := trim_append (hblank cs) (stripped cs)
    (hblank (cs.dropWhile isSpaceChar).reverse).reverse
  rw [List.append_assoc, hend, hstart] at htrim
  exact htrim.symm

theorem isSpace_of_mem_encodeChar {c : Char} {b : UInt8} (h : b ∈ encodeChar c) :
    isSpace b = isSpaceChar c := by
  have hchar : ∀ d : Char, c ≠ d → c.toNat ≠ d.toNat := fun d hne heq =>
    hne (by rw [← Char.ofNat_toNat c, heq, Char.ofNat_toNat])
  have hbyte : ∀ a : UInt8, b ≠ a ↔ b.toNat ≠ a.toNat := fun a => by rw [Ne, ← UInt8.toNat_inj]
  -- blanks have one byte; any other byte of a text is none of the four
  cases hspace : isSpaceChar c with
  | true =>
    simp only [isSpaceChar, Bool.or_eq_true, beq_iff_eq] at hspace
    rcases hspace with ((rfl | rfl) | rfl) | rfl <;> rw [List.mem_singleton.1 h] <;> rfl
  | false =>
    simp only [isSpaceChar, Bool.or_eq_false_iff, beq_eq_false_iff_ne] at hspace
    obtain ⟨⟨⟨hblank, hreturn⟩, hline⟩, htab⟩ := hspace
    simp only [isSpace, Bool.or_eq_false_iff, beq_eq_false_iff_ne, hbyte]
    rcases mem_encodeChar h with ⟨heq, -⟩ | hhigh
    · rw [heq]
      exact ⟨⟨⟨hchar ' ' hblank, hchar '\r' hreturn⟩, hchar '\n' hline⟩, hchar '\t' htab⟩
    · refine ⟨⟨⟨?_, ?_⟩, ?_⟩, ?_⟩
      · show b.toNat ≠ 32
        omega
      · show b.toNat ≠ 13
        omega
      · show b.toNat ≠ 10
        omega
      · show b.toNat ≠ 9
        omega

theorem isSpaceChar_of_mem_escapeChar {c d : Char} (h : d ∈ escapeChar c) :
    isSpaceChar d = isSpaceChar c := by
  have hentity : ∀ entity : List Char, entity.all (fun d => !isSpaceChar d) = true →
      d ∈ entity → isSpaceChar d = false := fun entity hall hd =>
    Bool.not_eq_eq_eq_not.1 (List.all_eq_true.1 hall d hd)
  unfold escapeChar at h
  split at h
  · next hc => rw [hc, hentity _ rfl h]; rfl
  · split at h
    · next hc => rw [hc, hentity _ rfl h]; rfl
    · split at h
      · next hc => rw [hc, hentity _ rfl h]; rfl
      · split at h
        · next hc => rw [hc, hentity _ rfl h]; rfl
        · split at h
          · next hc => rw [hc, hentity _ rfl h]; rfl
          · rw [List.mem_singleton.1 h]

theorem escapeChar_ne_nil (c : Char) : escapeChar c ≠ [] := by
  unfold escapeChar
  split
  · exact List.cons_ne_nil _ _
  · split
    · exact List.cons_ne_nil _ _
    · split
      · exact List.cons_ne_nil _ _
      · split
        · exact List.cons_ne_nil _ _
        · split <;> exact List.cons_ne_nil _ _

theorem encodeChar_ne_nil (c : Char) : encodeChar c ≠ [] := by
  obtain ⟨b, bs, hbytes, -⟩ := readChar_encodeChar c []
  rw [hbytes]
  exact List.cons_ne_nil b bs

/-- Where every character is written in characters of its own kind, blanks are cut off the
written text as off the text itself. -/
theorem dropWhile_flatMap {α β : Type} {f : α → List β} {p : β → Bool} {q : α → Bool}
    (hne : ∀ x, f x ≠ []) (hkind : ∀ x, ∀ y ∈ f x, p y = q x) (xs : List α) :
    (xs.flatMap f).dropWhile p = (xs.dropWhile q).flatMap f := by
  induction xs with
  | nil => rfl
  | cons x xs ih =>
    rw [List.flatMap_cons, List.dropWhile_cons]
    cases hq : q x with
    | true =>
      rw [List.dropWhile_append_of_pos fun y hy => by rw [hkind x y hy, hq], ih]
      rfl
    | false =>
      cases hf : f x with
      | nil => exact absurd hf (hne x)
      | cons y ys =>
        have hy : p y = false := by
          rw [hkind x y (hf ▸ List.mem_cons_self), hq]
        rw [List.cons_append, List.dropWhile_cons, hy, if_neg Bool.false_ne_true,
          if_neg Bool.false_ne_true, List.flatMap_cons, hf, List.cons_append]

theorem reverse_dropWhile_flatMap {α β : Type} {f : α → List β} {p : β → Bool} {q : α → Bool}
    (hne : ∀ x, f x ≠ []) (hkind : ∀ x, ∀ y ∈ f x, p y = q x) (xs : List α) :
    ((xs.flatMap f).reverse.dropWhile p).reverse = (xs.reverse.dropWhile q).reverse.flatMap f := by
  have hrev : ∀ ys : List α, (ys.flatMap f).reverse
      = ys.reverse.flatMap fun x => (f x).reverse := by
    intro ys
    rw [List.reverse_flatMap]
    rfl
  have hdrop := dropWhile_flatMap (f := fun x => (f x).reverse)
    (fun x => by simpa using hne x) (fun x y hy => hkind x y (List.mem_reverse.1 hy)) xs.reverse
  rw [hrev, hdrop]
  have hback := hrev (xs.reverse.dropWhile q).reverse
  rw [List.reverse_reverse] at hback
  rw [← hback, List.reverse_reverse]

theorem dropSpaces_encode_escape (cs : List Char) :
    (encode (escape cs)).dropWhile isSpace = encode (escape (cs.dropWhile isSpaceChar)) := by
  unfold encode escape
  rw [dropWhile_flatMap encodeChar_ne_nil fun c b hb => isSpace_of_mem_encodeChar hb,
    dropWhile_flatMap escapeChar_ne_nil fun c d hd => isSpaceChar_of_mem_escapeChar hd]

theorem dropEnd_encode_escape (cs : List Char) :
    dropEnd isSpace (encode (escape cs))
      = encode (escape (cs.reverse.dropWhile isSpaceChar).reverse) := by
  unfold dropEnd encode escape
  rw [reverse_dropWhile_flatMap encodeChar_ne_nil fun c b hb => isSpace_of_mem_encodeChar hb,
    ← List.reverse_reverse ((cs.flatMap escapeChar).reverse.dropWhile isSpaceChar),
    reverse_dropWhile_flatMap escapeChar_ne_nil fun c d hd => isSpaceChar_of_mem_escapeChar hd,
    List.reverse_reverse]

/-- The text that is read from the bytes of an escaped text. -/
theorem readText (cs : List Char) : (decode? (encode (escape cs))).bind unescape? = some cs := by
  rw [decode?_encode, Option.bind_some, unescape?_escape]

end MotifQuery.Xml
