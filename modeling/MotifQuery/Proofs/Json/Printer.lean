import MotifQuery.Json.Printer
import MotifQuery.Proofs.Json.Reader
import MotifQuery.Proofs.Number.Distinct
import MotifQuery.Proofs.Number.Reading

/-!
# `MotifQuery.Proofs.Json.Printer`: printed values are read back

The compact and the indented form of a value are texts of one document (`compact_text`,
`indented_text`), whatever its doubles and strings are.
-/

set_option autoImplicit false

namespace MotifQuery.Json

open Text Number

/-! ### Numbers -/

theorem digits_natDigits (n : Nat) : Digits (natDigits n) :=
  ⟨natDigits_ne_nil n, fun _ h => isAsciiDigit_of_mem_natDigits h⟩

theorem digits_zero : Digits ['0'] :=
  ⟨List.cons_ne_nil _ _, List.forall_mem_singleton.2 (by decide)⟩

theorem wholeText_zero : WholeText ['0'] :=
  ⟨digits_zero, fun _ => rfl⟩

/-- Digits after the first of a number above zero. -/
theorem wholeText_of_head {cs : List Char} (h : Digits cs) (hhead : cs.head? ≠ some '0') :
    WholeText cs :=
  ⟨h, fun h0 => absurd h0 hhead⟩

theorem wholeText_natDigits (n : Nat) : WholeText (natDigits n) := by
  rcases Nat.eq_zero_or_pos n with rfl | h
  · exact wholeText_zero
  · exact wholeText_of_head (digits_natDigits n) (head?_natDigits h)

/-- The number that a whole number is written as. -/
def intNumber (n : Int) : NumberText :=
  ⟨n < 0, natDigits n.natAbs, [], none⟩

theorem text_intChars (n : Int) : DocumentText (.number (intNumber n)) (intChars n) := by
  have htext : MagnitudeText (intNumber n) (natDigits n.natAbs ++ ([] ++ [])) :=
    .intro (wholeText_natDigits _) .absent .absent
  rw [List.append_nil, List.append_nil] at htext
  unfold intChars
  split
  · next h => exact .negative (decide_eq_true h) htext
  · next h => exact .unsigned (decide_eq_false h) htext

theorem Digits.append {cs ds : List Char} (hc : Digits cs) (hd : ∀ c ∈ ds, isAsciiDigit c = true) :
    Digits (cs ++ ds) :=
  ⟨fun h => hc.1 (List.append_eq_nil_iff.1 h).1, fun c h =>
    (List.mem_append.1 h).elim (hc.2 c) (hd c)⟩

theorem digit_of_mem_replicate {n : Nat} {c : Char} (h : c ∈ List.replicate n '0') :
    isAsciiDigit c = true := by
  rw [List.eq_of_mem_replicate h]
  rfl

/-- A whole part and a fraction. -/
theorem magnitudeText_point (negative : Bool) {whole fraction : List Char}
    (hwhole : WholeText whole) (hfraction : Digits fraction) :
    MagnitudeText ⟨negative, whole, fraction, none⟩ (whole ++ '.' :: fraction) := by
  have htext := MagnitudeText.intro (t := ⟨negative, whole, fraction, none⟩) hwhole
    (.present hfraction) .absent
  rwa [List.append_nil] at htext

/-- The power of ten of a number. -/
def NumberText.power (t : NumberText) : Int :=
  match t.exponent with
  | none => 0
  | some (negative, digits) => if negative then -(digitsValue digits : Int) else digitsValue digits

/-- The number that is written, without its sign. -/
def NumberText.magnitude (t : NumberText) : ℚ :=
  digitsValue (t.whole ++ t.fraction) * 10 ^ (t.power - t.fraction.length)

/-- The text of a number of either sign, which has a fraction or a power of ten. -/
def IsMagnitude (cs : List Char) (value : ℚ) : Prop :=
  ∀ negative, ∃ t : NumberText, MagnitudeText t cs ∧ t.negative = negative ∧ t.magnitude = value ∧
    (t.fraction = [] → t.exponent ≠ none)

/-- A whole part and a fraction, as the digits of a decimal. -/
theorem isMagnitude_point {d : Decimal} {whole fraction : List Char} (hwhole : WholeText whole)
    (hfraction : Digits fraction) (zeros : Nat)
    (hvalue : digitsValue (whole ++ fraction) = d.digits * 10 ^ zeros)
    (hlength : (zeros : Int) - fraction.length = d.exponent) :
    IsMagnitude (whole ++ '.' :: fraction) d.value := by
  intro negative
  refine ⟨_, magnitudeText_point negative hwhole hfraction, rfl, ?_, fun h => absurd h hfraction.1⟩
  show (digitsValue (whole ++ fraction) : ℚ) * 10 ^ (0 - (fraction.length : Int)) = _
  rw [hvalue, Decimal.value, ← hlength, sub_eq_add_neg (zeros : Int), zpow_add₀ (by norm_num),
    zpow_natCast, zero_sub]
  push_cast
  ring

/-- A number below one gets zeros between the point and its digits. -/
theorem isMagnitude_below {d : Decimal} {zeros : Nat}
    (hplace : -(zeros : Int) = (natDigits d.digits).length + d.exponent) :
    IsMagnitude ('0' :: '.' :: List.replicate zeros '0' ++ natDigits d.digits) d.value := by
  have hdigits := digits_natDigits d.digits
  have hfraction : Digits (List.replicate zeros '0' ++ natDigits d.digits) := by
    refine ⟨fun h0 => hdigits.1 (List.append_eq_nil_iff.1 h0).2, fun c hc => ?_⟩
    exact (List.mem_append.1 hc).elim digit_of_mem_replicate (hdigits.2 c)
  have hlength : ((0 : Nat) : Int) - (List.replicate zeros '0' ++ natDigits d.digits).length
      = d.exponent := by
    rw [List.length_append, List.length_replicate]
    omega
  refine isMagnitude_point wholeText_zero hfraction 0 ?_ hlength
  change digitsValue (List.replicate (zeros + 1) '0' ++ natDigits d.digits) = _
  rw [digitsValue_append, digitsValue_zeros, digitsValue_natDigits]
  ring

section
variable {d : Decimal} (h : 0 < d.digits)
include h

/-- A whole number gets zeros after its digits, and a fraction of zero. -/
theorem isMagnitude_whole (hexponent : 0 ≤ d.exponent) :
    IsMagnitude (natDigits d.digits ++ List.replicate d.exponent.toNat '0' ++ ['.', '0'])
      d.value := by
  have hdigits := digits_natDigits d.digits
  have hwhole : WholeText (natDigits d.digits ++ List.replicate d.exponent.toNat '0') := by
    refine wholeText_of_head (hdigits.append fun c hc => digit_of_mem_replicate hc) ?_
    have hhead := head?_natDigits h
    obtain ⟨c, cs, hcs, -⟩ := hdigits.exists_cons
    rw [hcs] at hhead ⊢
    exact hhead
  -- the zero of the fraction is one more zero after the digits
  refine isMagnitude_point hwhole digits_zero (d.exponent.toNat + 1) ?_ ?_
  · rw [digitsValue_append, digitsValue_append, digitsValue_natDigits, digitsValue_zeros,
      List.length_replicate, pow_succ]
    show (_ * _ + 0) * 10 + 0 = _
    ring
  · rw [List.length_singleton]
    omega

/-- A number with digits on both sides of the point. -/
theorem isMagnitude_among {n : Nat} (hexponent : d.exponent < 0)
    (hplace : (n : Int) = (natDigits d.digits).length + d.exponent) (hn : 0 < n) :
    IsMagnitude ((natDigits d.digits).take n ++ '.' :: (natDigits d.digits).drop n) d.value := by
  have hdigits := digits_natDigits d.digits
  have hlength : n < (natDigits d.digits).length := by omega
  have hwhole : WholeText ((natDigits d.digits).take n) := by
    refine wholeText_of_head ⟨?_, fun c hc => hdigits.2 c (List.mem_of_mem_take hc)⟩ ?_
    · rw [Ne, List.take_eq_nil_iff]
      rintro (h0 | h0)
      · omega
      · exact hdigits.1 h0
    · rw [List.head?_take, if_neg (by omega)]
      exact head?_natDigits h
  have hfraction : Digits ((natDigits d.digits).drop n) :=
    ⟨fun h0 => by rw [List.drop_eq_nil_iff] at h0; omega,
      fun c hc => hdigits.2 c (List.mem_of_mem_drop hc)⟩
  refine isMagnitude_point hwhole hfraction 0 ?_ ?_
  · rw [List.take_append_drop, digitsValue_natDigits, pow_zero, mul_one]
  · rw [List.length_drop]
    omega

theorem isMagnitude_positional : IsMagnitude (positional d ['.', '0']) d.value := by
  unfold positional
  dsimp only
  split
  · next hexponent => exact isMagnitude_whole h hexponent
  next hexponent =>
  split
  · next hplace => exact isMagnitude_among h (by omega) (by omega) (by omega)
  · next hplace => exact isMagnitude_below (by omega)

end

/-- A power of ten is written with its sign. -/
theorem powerText_place (place : Int) :
    PowerText (some (decide (place < 0), natDigits place.natAbs))
      ('e' :: (if place < 0 then '-' else '+') :: natDigits place.natAbs) := by
  by_cases hplace : place < 0
  · rw [if_pos hplace, decide_eq_true hplace]
    exact .present (.inl rfl) .minus (digits_natDigits _)
  · rw [if_neg hplace, decide_eq_false hplace]
    exact .present (.inl rfl) .plus (digits_natDigits _)

/-- The point stands after the first digit, and the power of ten makes up for it. -/
theorem magnitude_scientific {d : Decimal} {c : Char} {cs : List Char} {place : Int}
    (negative : Bool) (hvalue : digitsValue (c :: cs) = d.digits)
    (hplace : ((c :: cs).length : Int) + d.exponent - 1 = place) :
    NumberText.magnitude ⟨negative, [c], cs, some (decide (place < 0), natDigits place.natAbs)⟩
      = d.value := by
  have hpower : NumberText.power
      ⟨negative, [c], cs, some (decide (place < 0), natDigits place.natAbs)⟩ = place := by
    simp only [NumberText.power, digitsValue_natDigits, decide_eq_true_eq]
    split <;> omega
  rw [NumberText.magnitude, hpower, Decimal.value]
  show ((digitsValue (c :: cs) : ℕ) : ℚ) * 10 ^ (place - (cs.length : Int)) = _
  rw [hvalue, ← hplace, List.length_cons]
  congr 2
  push_cast
  ring

theorem isMagnitude_scientific (d : Decimal) : IsMagnitude (scientific d) d.value := by
  intro negative
  have hdigits := digits_natDigits d.digits
  have hvalue := digitsValue_natDigits d.digits
  unfold scientific
  dsimp only
  obtain ⟨c, cs, hcs, hc⟩ := hdigits.exists_cons
  rw [hcs] at hdigits hvalue ⊢
  generalize hplace : ((c :: cs).length : Int) + d.exponent - 1 = place
  have hwhole : WholeText [c] := by
    refine ⟨⟨List.cons_ne_nil _ _, fun b hb => ?_⟩, fun _ => rfl⟩
    rwa [List.mem_singleton.1 hb]
  have hmagnitude := magnitude_scientific negative hvalue hplace
  cases cs with
  | nil =>
    have htext := MagnitudeText.intro (t := ⟨negative, [c], [], _⟩) hwhole .absent
      (powerText_place place)
    exact ⟨_, htext, rfl, hmagnitude, fun _ => Option.some_ne_none _⟩
  | cons b bs =>
    have hfraction : Digits (b :: bs) :=
      ⟨List.cons_ne_nil _ _, fun a ha => hdigits.2 a (List.mem_cons_of_mem _ ha)⟩
    have htext := MagnitudeText.intro (t := ⟨negative, [c], b :: bs, _⟩) hwhole
      (.present hfraction) (powerText_place place)
    exact ⟨_, htext, rfl, hmagnitude, fun _ => Option.some_ne_none _⟩

theorem isMagnitude_zero : IsMagnitude ['0', '.', '0'] 0 := by
  intro negative
  refine ⟨_, magnitudeText_point negative wholeText_zero digits_zero, rfl, ?_, nofun⟩
  show ((digitsValue ['0', '0'] : ℕ) : ℚ) * _ = 0
  rw [show digitsValue ['0', '0'] = 0 from rfl, Nat.cast_zero, zero_mul]

/-- The number has the sign and the decimal of a double, and a fraction or a power of ten. -/
structure NumberText.Writes (t : NumberText) (x : Float) : Prop where
  negative : t.negative = signBit x
  magnitude : t.magnitude = decimalOf (magnitudeBits x)
  fractional : t.fraction = [] → t.exponent ≠ none

/-- The text of the bits of a magnitude writes its decimal, in either notation. -/
theorem isMagnitude_decimalOf {bits : Nat} (hbits : bits < 2 ^ 63) : IsMagnitude
    (if bits = 0 then ['0', '.', '0']
      else
        let d := shortest bits
        let place : Int := (natDigits d.digits).length + d.exponent
        if -5 < place ∧ place ≤ 16 then positional d ['.', '0'] else scientific d)
    (decimalOf bits) := by
  unfold decimalOf
  split
  · exact isMagnitude_zero
  · next hzero =>
    have hpos := digits_shortest_pos (Nat.pos_of_ne_zero hzero) hbits
    dsimp only
    split
    · exact isMagnitude_positional hpos
    · exact isMagnitude_scientific _

/-- A double is written as a number with its sign and its decimal. -/
theorem exists_text_jsonChars (x : Float) :
    ∃ t : NumberText, DocumentText (.number t) (jsonChars x) ∧ t.Writes x := by
  have hbits : x.toBits.toNat < 2 ^ 64 := x.toBits.toNat_lt
  unfold jsonChars signedText
  dsimp only
  -- the sign is the highest bit, and the others are the magnitude
  split
  · next hpos =>
    rw [Nat.pow_eq] at hpos
    have hmod : magnitudeBits x = x.toBits.toNat := Nat.mod_eq_of_lt hpos
    obtain ⟨t, htext, hsign, hvalue, hfractional⟩ := isMagnitude_decimalOf hpos false
    refine ⟨t, .unsigned hsign htext, hsign.trans ?_, hmod ▸ hvalue, hfractional⟩
    exact (decide_eq_false (by omega)).symm
  · next hneg =>
    rw [Nat.pow_eq] at hneg
    have hmod : magnitudeBits x = x.toBits.toNat - 2 ^ 63 := by
      unfold magnitudeBits
      omega
    have hbelow : x.toBits.toNat - 2 ^ 63 < 2 ^ 63 := by omega
    obtain ⟨t, htext, hsign, hvalue, hfractional⟩ := isMagnitude_decimalOf hbelow true
    refine ⟨t, .negative hsign htext, hsign.trans ?_, hmod ▸ hvalue, hfractional⟩
    exact (decide_eq_true (by omega)).symm

/-! ### Strings -/

/-- A code unit below the surrogates is its character. -/
theorem joinParts_unit {n : Nat} (h : n < 0xD800) (parts : List StringPart) :
    joinParts (.unit n :: parts) = (joinParts parts).map (Char.ofNat n :: ·) := by
  conv_lhs => unfold joinParts
  split
  · cases ‹_›
  · cases ‹_›
  · next heq =>
    cases heq
    rw [if_neg (by omega), if_neg (by omega)]
  · next heq =>
    cases heq
    rw [if_neg (by omega)]

/-- Control characters are written by number. -/
theorem exists_hexDigits {n : Nat} (h : n < 32) :
    ∃ a b c d, hexDigits 4 n = [a, b, c, d] ∧ readHex? [a, b, c, d] = some n := by
  interval_cases n <;> exact ⟨_, _, _, _, rfl, by decide⟩

/-- What a character is escaped to is read as that character. -/
theorem partsText_escapeChar (c : Char) {parts : List StringPart} {cs : List Char}
    (h : PartsText parts cs) :
    ∃ part, PartsText (part :: parts) (escapeChar c ++ cs) ∧
      joinParts (part :: parts) = (joinParts parts).map (c :: ·) := by
  -- the quote, the backslash, five characters with letters of their own, and the other controls
  unfold escapeChar
  split
  · next hc => exact ⟨_, .escaped (by rw [hc]; rfl) h, rfl⟩
  split
  · next hc => exact ⟨_, .escaped (by rw [hc]; rfl) h, rfl⟩
  split
  · next hc => exact ⟨_, .escaped (by rw [hc]; rfl) h, rfl⟩
  split
  · next hc => exact ⟨_, .escaped (by rw [hc]; rfl) h, rfl⟩
  split
  · next hc => exact ⟨_, .escaped (by rw [hc]; rfl) h, rfl⟩
  split
  · next hc => exact ⟨_, .escaped (by rw [hc]; rfl) h, rfl⟩
  split
  · next hc => exact ⟨_, .escaped (by rw [hc]; rfl) h, rfl⟩
  split
  · next hcontrol =>
    obtain ⟨a, b, c', d, hdigits, hhex⟩ := exists_hexDigits hcontrol
    rw [hdigits]
    refine ⟨_, .unit hhex h, ?_⟩
    rw [joinParts_unit (by omega), Char.ofNat_toNat]
  · next hquote hescape _ _ _ _ _ hcontrol => exact ⟨_, .plain hquote hescape hcontrol h, rfl⟩

/-- A quoted string is a text of that string. -/
theorem text_quoted (s : String) :
    StringText (some s) (s.toList.flatMap escapeChar ++ ['"']) := by
  have hparts : ∀ cs : List Char, ∃ parts, PartsText parts (cs.flatMap escapeChar ++ ['"']) ∧
      joinParts parts = some cs := by
    intro cs
    induction cs with
    | nil => exact ⟨[], .close, rfl⟩
    | cons c cs ih =>
      obtain ⟨parts, hparts, hjoin⟩ := ih
      obtain ⟨part, hpart, hjoin'⟩ := partsText_escapeChar c hparts
      refine ⟨part :: parts, ?_, ?_⟩
      · rw [List.flatMap_cons, List.append_assoc]
        exact hpart
      · rw [hjoin', hjoin]
        rfl
  obtain ⟨parts, hparts, hjoin⟩ := hparts s.toList
  have htext := StringText.intro hparts
  rw [hjoin] at htext
  rwa [Option.map_some, String.ofList_toList] at htext

/-! ### Values -/

mutual

/-- The document that the printed forms of a value are read as. -/
def document : Json → Document
  | .null => .null
  | .bool b => .bool b
  | .int n => .number (intNumber n)
  | .float x => (Document.parse? (jsonChars x)).getD .null
  | .str s => .string (some s)
  | .arr items => .array (documents items)
  | .obj fields => .object (memberDocuments fields)

/-- The documents of items. -/
def documents : List Json → List Document
  | [] => []
  | item :: rest => item.document :: documents rest

/-- The documents of fields. -/
def memberDocuments : List (String × Json) → List (String × Document)
  | [] => []
  | (key, value) :: rest => (key, value.document) :: memberDocuments rest

end

/-- A double is read as the number it is written as. -/
theorem exists_document_float (x : Float) :
    ∃ t : NumberText, document (.float x) = .number t ∧ DocumentText (.number t) (jsonChars x) ∧
      t.Writes x := by
  obtain ⟨t, ht, hwrites⟩ := exists_text_jsonChars x
  refine ⟨t, ?_, ht, hwrites⟩
  have hparse : Document.parse? (jsonChars x) = some (.number t) :=
    Document.parse?_eq_some_iff.2 ⟨[], _, [], .nil, ht, .nil, (List.append_nil _).symm⟩
  rw [document, hparse]
  rfl

/-! ### The compact form -/

mutual

/-- The compact form of a value is a text of its document. -/
theorem compact_text : (j : Json) → DocumentText j.document (compactChars j)
  | .null => .null
  | .bool true => .yes
  | .bool false => .no
  | .int n => text_intChars n
  | .float x => by
    obtain ⟨t, hdocument, htext, -⟩ := exists_document_float x
    rw [hdocument]
    exact htext
  | .str s => .string (text_quoted s)
  | .arr [] => .emptyArray .nil
  | .arr (item :: rest) => .array (compactItems_text (item :: rest) (List.cons_ne_nil _ _))
  | .obj [] => .emptyObject .nil
  | .obj (field :: rest) => .object (compactFields_text (field :: rest) (List.cons_ne_nil _ _))

theorem compactItems_text : (items : List Json) → items ≠ [] →
    ItemsText (documents items) (compactItems items ++ [']'])
  | [], h => absurd rfl h
  | [item], _ => .last .nil (compact_text item) .nil
  | item :: next :: rest, _ => by
    have htext := ItemsText.more .nil (compact_text item) .nil
      (compactItems_text (next :: rest) (List.cons_ne_nil _ _))
    show ItemsText _ (compactChars item ++ ',' :: compactItems (next :: rest) ++ [']'])
    rw [List.append_assoc]
    exact htext

theorem compactFields_text : (fields : List (String × Json)) → fields ≠ [] →
    MembersText (memberDocuments fields) (compactFields fields ++ ['}'])
  | [], h => absurd rfl h
  | [(key, value)], _ => by
    have htext := MembersText.last .nil (text_quoted key) .nil .nil (compact_text value) .nil
    show MembersText [(key, value.document)] (quoted key ++ ':' :: compactChars value ++ ['}'])
    simpa only [quoted, List.nil_append, List.cons_append, List.append_assoc] using htext
  | (key, value) :: next :: rest, _ => by
    have htext := MembersText.more .nil (text_quoted key) .nil .nil (compact_text value) .nil
      (compactFields_text (next :: rest) (List.cons_ne_nil _ _))
    show MembersText ((key, value.document) :: memberDocuments (next :: rest))
      (quoted key ++ ':' :: compactChars value ++ ',' :: compactFields (next :: rest) ++ ['}'])
    simpa only [quoted, List.nil_append, List.cons_append, List.append_assoc] using htext

end

/-! ### The indented form -/

theorem spaces_newLine (depth : Nat) : Spaces (newLine depth) := by
  intro c hc
  rcases List.mem_cons.1 hc with rfl | hc
  · rfl
  · rw [List.eq_of_mem_replicate hc]
    rfl

theorem spaces_blank : Spaces [' '] := by
  intro c hc
  rw [List.mem_singleton.1 hc]
  rfl

mutual

/-- The indented form of a value is a text of its document. -/
theorem indented_text : (depth : Nat) → (j : Json) →
    DocumentText j.document (indentedChars depth j)
  | _, .null => .null
  | _, .bool true => .yes
  | _, .bool false => .no
  | _, .int n => text_intChars n
  | _, .float x => by
    obtain ⟨t, hdocument, htext, -⟩ := exists_document_float x
    rw [hdocument]
    exact htext
  | _, .str s => .string (text_quoted s)
  | _, .arr [] => .emptyArray .nil
  | depth, .arr (item :: rest) => by
    have htext := (indentedItems_text (depth + 1) (newLine depth) (spaces_newLine depth)
      (item :: rest) (List.cons_ne_nil _ _)).spaces (spaces_newLine (depth + 1))
    show DocumentText (.array (documents (item :: rest))) ('[' :: newLine (depth + 1)
      ++ indentedItems (depth + 1) (item :: rest) ++ newLine depth ++ [']'])
    simpa only [List.cons_append, List.append_assoc] using DocumentText.array htext
  | _, .obj [] => .emptyObject .nil
  | depth, .obj (field :: rest) => by
    have htext := (indentedFields_text (depth + 1) (newLine depth) (spaces_newLine depth)
      (field :: rest) (List.cons_ne_nil _ _)).spaces (spaces_newLine (depth + 1))
    show DocumentText (.object (memberDocuments (field :: rest))) ('{' :: newLine (depth + 1)
      ++ indentedFields (depth + 1) (field :: rest) ++ newLine depth ++ ['}'])
    simpa only [List.cons_append, List.append_assoc] using DocumentText.object htext

theorem indentedItems_text : (depth : Nat) → (ending : List Char) → Spaces ending →
    (items : List Json) → items ≠ [] →
    ItemsText (documents items) (indentedItems depth items ++ (ending ++ [']']))
  | _, _, _, [], h => absurd rfl h
  | depth, _, hending, [item], _ => .last .nil (indented_text depth item) hending
  | depth, ending, hending, item :: next :: rest, _ => by
    have htext := ItemsText.more .nil (indented_text depth item) .nil
      ((indentedItems_text depth ending hending (next :: rest)
        (List.cons_ne_nil _ _)).spaces (spaces_newLine depth))
    show ItemsText (item.document :: documents (next :: rest))
      (indentedChars depth item ++ ',' :: newLine depth
        ++ indentedItems depth (next :: rest) ++ (ending ++ [']']))
    simpa only [List.nil_append, List.cons_append, List.append_assoc] using htext

theorem indentedFields_text : (depth : Nat) → (ending : List Char) → Spaces ending →
    (fields : List (String × Json)) → fields ≠ [] →
    MembersText (memberDocuments fields) (indentedFields depth fields ++ (ending ++ ['}']))
  | _, _, _, [], h => absurd rfl h
  | depth, ending, hending, [(key, value)], _ => by
    have htext := MembersText.last .nil (text_quoted key) .nil spaces_blank
      (indented_text depth value) hending
    show MembersText [(key, value.document)]
      (quoted key ++ ':' :: ' ' :: indentedChars depth value ++ (ending ++ ['}']))
    simpa only [quoted, List.nil_append, List.cons_append, List.append_assoc] using htext
  | depth, ending, hending, (key, value) :: next :: rest, _ => by
    have htext := MembersText.more .nil (text_quoted key) .nil spaces_blank
      (indented_text depth value) .nil
      ((indentedFields_text depth ending hending (next :: rest)
        (List.cons_ne_nil _ _)).spaces (spaces_newLine depth))
    show MembersText ((key, value.document) :: memberDocuments (next :: rest))
      (quoted key ++ ':' :: ' ' :: indentedChars depth value ++ ',' :: newLine depth
      ++ indentedFields depth (next :: rest) ++ (ending ++ ['}']))
    simpa only [quoted, List.nil_append, List.cons_append, List.append_assoc] using htext

end

/-! ### Reading back -/

theorem Document.parse?_of_text {doc : Document} {text : List Char} (h : DocumentText doc text) :
    Document.parse? text = some doc :=
  Document.parse?_eq_some_iff.2 ⟨[], text, [], .nil, h, .nil, (List.append_nil _).symm⟩

theorem Document.parse?_compact (j : Json) : Document.parse? (compactChars j) = some j.document :=
  Document.parse?_of_text (compact_text j)

theorem Document.parse?_indented (j : Json) :
    Document.parse? (indentedChars 0 j) = some j.document :=
  Document.parse?_of_text (indented_text 0 j)

end MotifQuery.Json
