import MotifQuery.Proofs.Number.Reading
import MotifQuery.Proofs.Text.Split

/-!
# `MotifQuery.Proofs.Number.DecimalText`: the texts that are read as doubles

What a decimal number looks like is said by relations on texts: a run of digits with at most
one point (`DecimalText`), a power of ten (`PowerText`), a sign (`SignText`). The reader reads
exactly these and the words for what is no number: `readMagnitude?_of_decimal`,
`exists_decimalText`. So the texts whose double is not finite are known: the words, and the
numbers from `overflow` on (`exists_readDouble?_iff`). A text that is read as a whole number of
at most 64 binary digits is read as the double next to it, too (`readDouble?_of_readInt?`).
-/

set_option autoImplicit false

namespace MotifQuery.Number

open Text

/-! ### Texts -/

/-- A run of ASCII digits. -/
def AllDigits (cs : List Char) : Prop :=
  ∀ c ∈ cs, isAsciiDigit c = true

/-- At most one sign; the flag is set for a minus. -/
inductive SignText : List Char → Bool → Prop where
  | none : SignText [] false
  | plus : SignText ['+'] false
  | minus : SignText ['-'] true

/-- The text of a power of ten: nothing, or `e` and a whole number. -/
inductive PowerText : List Char → Int → Prop where
  | none : PowerText [] 0
  | power {mark : Char} {sign ds : List Char} {negative : Bool}
      (hmark : mark = 'e' ∨ mark = 'E') (hsign : SignText sign negative) (hds : AllDigits ds)
      (hne : ds ≠ []) :
      PowerText (mark :: (sign ++ ds)) (if negative then -digitsValue ds else digitsValue ds)

/-- The text of a decimal number without sign, with its digits and the power of ten that they
are to be multiplied by. -/
inductive DecimalText : List Char → List Char → Int → Prop where
  | whole {ds power : List Char} {e : Int} (hds : AllDigits ds) (hne : ds ≠ [])
      (hpower : PowerText power e) : DecimalText (ds ++ power) ds e
  | point {ds fs power : List Char} {e : Int} (hds : AllDigits ds) (hfs : AllDigits fs)
      (hne : ds ++ fs ≠ []) (hpower : PowerText power e) :
      DecimalText (ds ++ '.' :: (fs ++ power)) (ds ++ fs) (e - fs.length)

/-- The words for an infinity and for what is no number, in any case. -/
def IsWord (cs : List Char) : Prop :=
  cs.map lowerAscii ∈ ["inf".toList, "infinity".toList, "nan".toList]

instance (cs : List Char) : Decidable (IsWord cs) :=
  inferInstanceAs (Decidable (cs.map lowerAscii ∈ _))

variable {cs ds : List Char} {e : Int} {negative : Bool}

theorem DecimalText.digits (h : DecimalText cs ds e) : AllDigits ds := by
  cases h with
  | whole hds => exact hds
  | point hds hfs => exact fun c hc => (List.mem_append.1 hc).elim (hds c) (hfs c)

/-! ### Parts -/

/-- AllDigits carry no sign, so the one before them is found. -/
theorem splitSign_append {sign : List Char} (hsign : SignText sign negative)
    (hcs : ∀ c ∈ cs.head?, c ≠ '-' ∧ c ≠ '+') : splitSign (sign ++ cs) = (negative, cs) := by
  cases hsign with
  | none =>
    cases cs with
    | nil => rfl
    | cons c cs =>
      obtain ⟨hminus, hplus⟩ := hcs c rfl
      rw [List.nil_append, splitSign, if_neg hminus, if_neg hplus]
  | plus => rfl
  | minus => rfl

theorem exists_signText (cs : List Char) :
    ∃ sign, SignText sign (splitSign cs).1 ∧ cs = sign ++ (splitSign cs).2 := by
  cases cs with
  | nil => exact ⟨[], .none, rfl⟩
  | cons c cs =>
    rw [splitSign]
    split
    · next h => exact ⟨['-'], .minus, h ▸ rfl⟩
    · split
      · next h => exact ⟨['+'], .plus, h ▸ rfl⟩
      · exact ⟨[], .none, rfl⟩

theorem AllDigits.head_ne (hds : AllDigits ds) : ∀ c ∈ ds.head?, c ≠ '-' ∧ c ≠ '+' := by
  intro c hc
  have hdigit := hds c (List.mem_of_mem_head? hc)
  constructor <;> rintro rfl <;> exact absurd hdigit (by decide)

theorem PowerText.readExponent? (h : PowerText cs e) : readExponent? cs = some e := by
  cases h with
  | none => rfl
  | power hmark hsign hds hne =>
    rw [Number.readExponent?, if_pos hmark, readInt?, splitSign_append hsign hds.head_ne]
    dsimp only
    rw [readNat?_eq_some_iff.2 ⟨hne, hds, rfl⟩]
    rfl

theorem powerText_of_readExponent? (h : readExponent? cs = some e) : PowerText cs e := by
  cases cs with
  | nil =>
    cases h
    exact .none
  | cons mark cs =>
    rw [readExponent?] at h
    split at h
    · next hmark =>
      obtain ⟨sign, hsign, hcs⟩ := exists_signText cs
      rcases hsplit : splitSign cs with ⟨negative, ds⟩
      rw [hsplit] at hsign hcs
      rw [readInt?, hsplit] at h
      obtain ⟨m, hm, rfl⟩ := Option.map_eq_some_iff.1 h
      obtain ⟨n, hn, ⟨⟩⟩ := Option.bind_eq_some_iff.1 hm
      obtain ⟨hne, hds, rfl⟩ := readNat?_eq_some_iff.1 hn
      rw [hcs]
      exact .power hmark hsign hds hne
    · cases h

/-- A power of ten begins with no digit and no point. -/
theorem PowerText.head_ne (h : PowerText cs e) :
    ∀ c ∈ cs.head?, isAsciiDigit c = false ∧ c ≠ '.' := by
  cases h with
  | none => exact fun _ hc => nomatch hc
  | power hmark =>
    rintro c ⟨⟩
    rcases hmark with rfl | rfl <;> decide

/-! ### Numbers without sign -/

theorem lowerAscii_of_digit {c : Char} (h : isAsciiDigit c = true) : lowerAscii c = c := by
  rw [isAsciiDigit, Bool.and_eq_true, decide_eq_true_eq, decide_eq_true_eq] at h
  refine if_neg fun hletter => ?_
  exact absurd (Char.le_trans hletter.1 h.2) (by decide)

/-- A word begins with a letter. -/
theorem IsWord.exists_cons (h : IsWord cs) :
    ∃ c rest, cs = c :: rest ∧ (lowerAscii c = 'i' ∨ lowerAscii c = 'n') := by
  have hwords : ∀ word ∈ ["inf".toList, "infinity".toList, "nan".toList],
      word.head? = some 'i' ∨ word.head? = some 'n' := by decide
  have hletter := hwords _ h
  cases cs with
  | nil => simp at hletter
  | cons c rest =>
    rw [List.map_cons, List.head?_cons, Option.some_inj, Option.some_inj] at hletter
    exact ⟨c, rest, rfl, hletter⟩

/-- A decimal number begins with a digit or a point. -/
theorem DecimalText.exists_cons (h : DecimalText cs ds e) :
    ∃ c rest, cs = c :: rest ∧ (isAsciiDigit c = true ∨ c = '.') := by
  cases h with
  | @whole ds power e hds hne hpower =>
    obtain ⟨d, ds, rfl⟩ := List.exists_cons_of_ne_nil hne
    exact ⟨d, _, rfl, .inl (hds d List.mem_cons_self)⟩
  | @point ds fs power e hds =>
    cases ds with
    | nil => exact ⟨'.', _, rfl, .inr rfl⟩
    | cons d ds => exact ⟨d, _, rfl, .inl (hds d List.mem_cons_self)⟩

/-- A decimal number is none of the words. -/
theorem DecimalText.not_isWord (h : DecimalText cs ds e) : ¬ IsWord cs := by
  intro hword
  obtain ⟨c, rest, rfl, hdigit⟩ := h.exists_cons
  obtain ⟨d, rest', heq, hletter⟩ := hword.exists_cons
  obtain ⟨rfl, rfl⟩ := List.cons.inj heq
  rcases hdigit with hdigit | rfl
  · rw [lowerAscii_of_digit hdigit] at hletter
    rcases hletter with rfl | rfl <;> exact absurd hdigit (by decide)
  · exact absurd hletter (by decide)

/-- Without a point there is no fraction. -/
theorem readMagnitude?_whole (hword : ¬ IsWord cs)
    (h : ∀ c ∈ (cs.dropWhile isAsciiDigit).head?, c ≠ '.') :
    readMagnitude? cs = if (cs.takeWhile isAsciiDigit).isEmpty then none
      else (readExponent? (cs.dropWhile isAsciiDigit)).map
        (nearestDouble (cs.takeWhile isAsciiDigit)) := by
  unfold readMagnitude?
  simp only [IsWord, List.mem_cons, List.not_mem_nil, or_false, not_or] at hword
  obtain ⟨hinf, hinfinity, hnan⟩ := hword
  refine ((if_neg (not_or.2 ⟨hinf, hinfinity⟩)).trans (if_neg hnan)).trans ?_
  generalize cs.dropWhile isAsciiDigit = rest at h
  dsimp only
  cases rest with
  | nil => simp
  | cons c rest =>
    have hc : c ≠ '.' := h c rfl
    simp [hc]

/-- After a point digits of a fraction may follow. -/
theorem readMagnitude?_point (hword : ¬ IsWord cs) {rest : List Char}
    (h : cs.dropWhile isAsciiDigit = '.' :: rest) :
    readMagnitude? cs
      = if (cs.takeWhile isAsciiDigit).isEmpty && (rest.takeWhile isAsciiDigit).isEmpty then none
        else (readExponent? (rest.dropWhile isAsciiDigit)).map fun e =>
          nearestDouble (cs.takeWhile isAsciiDigit ++ rest.takeWhile isAsciiDigit)
            (e - (rest.takeWhile isAsciiDigit).length) := by
  unfold readMagnitude?
  simp only [IsWord, List.mem_cons, List.not_mem_nil, or_false, not_or] at hword
  obtain ⟨hinf, hinfinity, hnan⟩ := hword
  rw [h]
  exact (if_neg (not_or.2 ⟨hinf, hinfinity⟩)).trans (if_neg hnan)

/-- A decimal number is read as the double of its digits. -/
theorem readMagnitude?_of_decimal (h : DecimalText cs ds e) :
    readMagnitude? cs = some (nearestDouble ds e) := by
  have hword := h.not_isWord
  cases h with
  | @whole _ power _ hds hne hpower =>
    have htake := takeWhile_run hds fun c hc => (hpower.head_ne c hc).1
    have hdrop := dropWhile_run hds fun c hc => (hpower.head_ne c hc).1
    have hpoint : ∀ c ∈ ((ds ++ power).dropWhile isAsciiDigit).head?, c ≠ '.' := by
      rw [hdrop]
      exact fun c hc => (hpower.head_ne c hc).2
    rw [readMagnitude?_whole hword hpoint, htake, hdrop, List.isEmpty_eq_false_iff.2 hne,
      if_neg Bool.false_ne_true, hpower.readExponent?, Option.map_some]
  | @point ds fs power e hds hfs hne hpower =>
    have hdot : ∀ c ∈ ('.' :: (fs ++ power)).head?, isAsciiDigit c = false := by
      rintro c ⟨⟩
      rfl
    have htake := takeWhile_run hfs fun c hc => (hpower.head_ne c hc).1
    have hdrop := dropWhile_run hfs fun c hc => (hpower.head_ne c hc).1
    have hempty : (ds.isEmpty && fs.isEmpty) = false := by
      rw [Bool.and_eq_false_iff, List.isEmpty_eq_false_iff, List.isEmpty_eq_false_iff, ← not_and_or]
      exact fun h => hne (List.append_eq_nil_iff.2 h)
    rw [readMagnitude?_point hword (dropWhile_run hds hdot), takeWhile_run hds hdot, htake, hdrop,
      hempty, if_neg Bool.false_ne_true, hpower.readExponent?, Option.map_some]

/-- What is read is a word or a decimal number. -/
theorem exists_decimalText {x : Float} (hword : ¬ IsWord cs) (h : readMagnitude? cs = some x) :
    ∃ ds e, DecimalText cs ds e ∧ x = nearestDouble ds e := by
  have hdigits : ∀ cs : List Char, AllDigits (cs.takeWhile isAsciiDigit) := fun cs =>
    List.all_eq_true.1 List.all_takeWhile
  have hcs : cs.takeWhile isAsciiDigit ++ cs.dropWhile isAsciiDigit = cs :=
    List.takeWhile_append_dropWhile
  -- the digits in front end at a point, or else there is no fraction
  by_cases hpoint : ∃ rest, cs.dropWhile isAsciiDigit = '.' :: rest
  · obtain ⟨rest, hrest⟩ := hpoint
    rw [readMagnitude?_point hword hrest] at h
    split at h
    · cases h
    · next hempty =>
      obtain ⟨e, he, rfl⟩ := Option.map_eq_some_iff.1 h
      have hne : cs.takeWhile isAsciiDigit ++ rest.takeWhile isAsciiDigit ≠ [] := by
        intro hnil
        obtain ⟨hwhole, hfraction⟩ := List.append_eq_nil_iff.1 hnil
        exact hempty (by rw [hwhole, hfraction]; rfl)
      have htext := DecimalText.point (hdigits cs) (hdigits rest) hne
        (powerText_of_readExponent? he)
      rw [List.takeWhile_append_dropWhile, ← hrest, hcs] at htext
      exact ⟨_, _, htext, rfl⟩
  · have hhead : ∀ c ∈ (cs.dropWhile isAsciiDigit).head?, c ≠ '.' := by
      rintro c hc rfl
      cases hdrop : cs.dropWhile isAsciiDigit with
      | nil =>
        rw [hdrop] at hc
        cases hc
      | cons d rest =>
        rw [hdrop] at hc
        exact hpoint ⟨rest, by rw [hdrop, Option.some_inj.1 hc]⟩
    rw [readMagnitude?_whole hword hhead] at h
    split at h
    · cases h
    · next hempty =>
      obtain ⟨e, he, rfl⟩ := Option.map_eq_some_iff.1 h
      have htext := DecimalText.whole (hdigits cs) (fun h => hempty (List.isEmpty_iff.2 h))
        (powerText_of_readExponent? he)
      rw [hcs] at htext
      exact ⟨_, _, htext, rfl⟩

/-! ### Texts whose double is not finite -/

/-- The text, without sign, of what no finite double is near: a word, or too large a number. -/
inductive Unbounded : List Char → Prop where
  | word {cs : List Char} (h : IsWord cs) : Unbounded cs
  | large {cs ds : List Char} {e : Int} (h : DecimalText cs ds e)
      (hlarge : overflow ≤ digitsValue ds * 10 ^ e) : Unbounded cs

/-- The text of an infinity, of what is no number, or of a number beyond the range of doubles. -/
inductive NonFinite : List Char → Prop where
  | intro {sign cs : List Char} {negative : Bool} (hsign : SignText sign negative)
      (h : Unbounded cs) : NonFinite (sign ++ cs)

theorem not_isFinite_nearestDouble_iff (h : DecimalText cs ds e) :
    isFinite (nearestDouble ds e) = false ↔ overflow ≤ (digitsValue ds : ℚ) * 10 ^ e := by
  rw [← not_lt, ← isFinite_nearestDouble h.digits, Bool.not_eq_true]

/-- A word stands for an infinity or for no number. -/
theorem IsWord.readMagnitude? (h : IsWord cs) :
    ∃ x, readMagnitude? cs = some x ∧ isFinite x = false := by
  simp only [IsWord, List.mem_cons, List.not_mem_nil, or_false] at h
  unfold Number.readMagnitude?
  rcases h with h | h | h
  · exact ⟨_, if_pos (.inl h), rfl⟩
  · exact ⟨_, if_pos (.inr h), rfl⟩
  · refine ⟨_, (if_neg ?_).trans (if_pos h), rfl⟩
    rw [h]
    decide

theorem exists_readMagnitude?_iff :
    (∃ x, readMagnitude? cs = some x ∧ isFinite x = false) ↔ Unbounded cs := by
  constructor
  · rintro ⟨x, hx, hfinite⟩
    by_cases hword : IsWord cs
    · exact .word hword
    · obtain ⟨ds, e, htext, rfl⟩ := exists_decimalText hword hx
      exact .large htext ((not_isFinite_nearestDouble_iff htext).1 hfinite)
  · intro h
    cases h with
    | word h => exact h.readMagnitude?
    | large h hlarge =>
      exact ⟨_, readMagnitude?_of_decimal h, (not_isFinite_nearestDouble_iff h).2 hlarge⟩

/-- What has no sign before it begins with none. -/
theorem Unbounded.head_ne (h : Unbounded cs) : ∀ c ∈ cs.head?, c ≠ '-' ∧ c ≠ '+' := by
  cases h with
  | word h =>
    obtain ⟨c, rest, rfl, hletter⟩ := h.exists_cons
    rintro d ⟨⟩
    constructor <;> rintro rfl <;> exact absurd hletter (by decide)
  | large h =>
    obtain ⟨c, rest, rfl, hdigit⟩ := h.exists_cons
    rintro d ⟨⟩
    constructor <;> rintro rfl <;> exact absurd hdigit (by decide)

theorem isFinite_signed (negative : Bool) (x : Float) :
    isFinite (if negative then -x else x) = isFinite x := by
  cases negative
  · rfl
  · exact isFinite_neg x

/-- The texts whose double is not finite. -/
theorem exists_readDouble?_iff :
    (∃ x, readDouble? cs = some x ∧ isFinite x = false) ↔ NonFinite cs := by
  constructor
  · rintro ⟨x, hx, hfinite⟩
    obtain ⟨sign, hsign, hcs⟩ := exists_signText cs
    rcases hsplit : splitSign cs with ⟨negative, rest⟩
    rw [hsplit] at hsign hcs
    rw [readDouble?, hsplit] at hx
    obtain ⟨y, hy, rfl⟩ := Option.map_eq_some_iff.1 hx
    rw [isFinite_signed] at hfinite
    rw [hcs]
    exact .intro hsign (exists_readMagnitude?_iff.1 ⟨y, hy, hfinite⟩)
  · rintro ⟨hsign, h⟩
    obtain ⟨y, hy, hfinite⟩ := exists_readMagnitude?_iff.2 h
    rw [readDouble?, splitSign_append hsign h.head_ne]
    dsimp only
    rw [hy]
    exact ⟨_, rfl, (isFinite_signed _ _).trans hfinite⟩

/-! ### Whole numbers -/

theorem nearest_signed (negative : Bool) (n : Nat) :
    nearest (if negative then -(n : Int) else n)
      = if negative then -(nearestNat n : Int) else nearestNat n := by
  cases negative
  · exact if_neg (by simp)
  · rcases Nat.eq_zero_or_pos n with rfl | hpos
    · rfl
    · rw [if_pos rfl, if_pos rfl, nearest, if_pos (by omega), Int.natAbs_neg, Int.natAbs_natCast]

/-- The text of a whole number is the text of a decimal number, too. -/
theorem readDouble?_of_readInt? {n : Int} (h : readInt? cs = some n) (hn : n.natAbs ≤ 2 ^ 64) :
    ∃ x, readDouble? cs = some x ∧ value? x = some (nearest n : ℚ) := by
  rcases hsplit : splitSign cs with ⟨negative, ds⟩
  rw [readInt?, hsplit] at h
  obtain ⟨m, hm, rfl⟩ := Option.map_eq_some_iff.1 h
  obtain ⟨k, hk, ⟨⟩⟩ := Option.bind_eq_some_iff.1 hm
  obtain ⟨hne, hds, rfl⟩ := readNat?_eq_some_iff.1 hk
  -- digits without a point or a power
  have htext := DecimalText.whole hds hne .none
  rw [List.append_nil] at htext
  have hle : digitsValue ds ≤ 2 ^ 64 := by cases negative <;> simpa using hn
  have hvalue := value?_nearestDouble hds hle
  rw [readDouble?, hsplit]
  dsimp only
  rw [readMagnitude?_of_decimal htext, nearest_signed]
  refine ⟨_, rfl, ?_⟩
  cases negative
  · exact hvalue
  · show value? (-nearestDouble ds 0) = some ((-(nearestNat (digitsValue ds) : Int) : Int) : ℚ)
    rw [value?_neg, hvalue, Int.cast_neg]
    rfl

end MotifQuery.Number
