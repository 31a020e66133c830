import MotifQuery.Proofs.Number.Rounding
import MotifQuery.Proofs.Number.Shortest

/-!
# `MotifQuery.Proofs.Number.Nearest`: the doubles of whole and decimal numbers

A whole number becomes a double by rounding it to 53 digits, half to even (`nearest`,
`value?_ofInt`). Rounding keeps the order (`nearest_mono`) and changes nothing up to
`2 ^ 53` in magnitude. The double of a decimal number is what the number is rounded to
(`roundsTo_ofNat`, `roundsTo_ofScientific`), so it is finite exactly below `overflow`
(`RoundsTo.isFinite_iff`).
-/

set_option autoImplicit false

namespace MotifQuery.Number

open Float.Model Float.Model.UnpackedFloat

/-! ### Whole numbers -/

/-- A natural number to 53 binary digits, half to even. -/
def nearestNat (n : Nat) : Nat :=
  halfEven n (2 ^ (n.log2 - 52)) * 2 ^ (n.log2 - 52)

/-- A whole number to 53 binary digits, half to even. -/
def nearest (n : Int) : Int :=
  if n < 0 then -nearestNat n.natAbs else nearestNat n.natAbs

theorem nearestNat_of_le {n : Nat} (hn : n ≤ 2 ^ 53) : nearestNat n = n := by
  rcases hn.lt_or_eq with hlt | rfl
  · have hlog : n.log2 - 52 = 0 := by
      rcases Nat.eq_zero_or_pos n with rfl | hpos
      · rfl
      · have := (Nat.log2_lt hpos.ne').2 hlt
        omega
    have h := halfEven_mul_right one_pos n
    rw [nearestNat, hlog, pow_zero, mul_one]
    rwa [mul_one] at h
  · rw [nearestNat, Nat.log2_two_pow]
    rfl

theorem pow_log2_le_nearestNat {n : Nat} (hn : 2 ^ 53 < n) : 2 ^ n.log2 ≤ nearestNat n := by
  have hlog : 53 ≤ n.log2 := (Nat.le_log2 (by omega)).2 hn.le
  have hfull : 2 ^ 52 ≤ n / 2 ^ (n.log2 - 52) := by
    rw [Nat.le_div_iff_mul_le (Nat.two_pow_pos _), ← pow_add, Nat.add_sub_cancel' (by omega)]
    exact Nat.log2_self_le (by omega)
  calc 2 ^ n.log2 = 2 ^ 52 * 2 ^ (n.log2 - 52) := by
        rw [← pow_add, Nat.add_sub_cancel' (by omega)]
    _ ≤ nearestNat n := Nat.mul_le_mul_right _ (hfull.trans (le_halfEven _ _))

theorem nearestNat_le {n : Nat} (hn : 2 ^ 53 < n) : nearestNat n ≤ 2 ^ (n.log2 + 1) := by
  have hlog : 53 ≤ n.log2 := (Nat.le_log2 (by omega)).2 hn.le
  have hpow : 2 ^ (n.log2 + 1) = 2 ^ 53 * 2 ^ (n.log2 - 52) := by
    rw [← pow_add]
    congr 1
    omega
  have hlt : n / 2 ^ (n.log2 - 52) < 2 ^ 53 := by
    rw [Nat.div_lt_iff_lt_mul (Nat.two_pow_pos _), ← hpow]
    exact Nat.lt_log2_self
  rw [hpow]
  exact Nat.mul_le_mul_right _ ((halfEven_le _ _).trans hlt)

/-- Rounding keeps the order. -/
theorem nearestNat_mono {n m : Nat} (h : n ≤ m) : nearestNat n ≤ nearestNat m := by
  rcases le_or_gt m (2 ^ 53) with hm | hm
  · rwa [nearestNat_of_le hm, nearestNat_of_le (h.trans hm)]
  · rcases le_or_gt n (2 ^ 53) with hn | hn
    · have hlog : 53 ≤ m.log2 := (Nat.le_log2 (by omega)).2 hm.le
      rw [nearestNat_of_le hn]
      exact (hn.trans (Nat.pow_le_pow_right two_pos hlog)).trans (pow_log2_le_nearestNat hm)
    · have hlog : n.log2 ≤ m.log2 :=
        (Nat.le_log2 (by omega)).2 ((Nat.log2_self_le (by omega)).trans h)
      rcases hlog.lt_or_eq with hlt | heq
      · exact (nearestNat_le hn).trans
          ((Nat.pow_le_pow_right two_pos hlt).trans (pow_log2_le_nearestNat hm))
      · rw [nearestNat, nearestNat, heq]
        exact Nat.mul_le_mul_right _ (halfEven_mono h)

theorem nearest_mono {n m : Int} (h : n ≤ m) : nearest n ≤ nearest m := by
  unfold nearest
  split
  · split
    · have := nearestNat_mono (show m.natAbs ≤ n.natAbs by omega)
      omega
    · omega
  · have := nearestNat_mono (show n.natAbs ≤ m.natAbs by omega)
    rw [if_neg (by omega)]
    omega

theorem nearest_of_natAbs_le {n : Int} (hn : n.natAbs ≤ 2 ^ 53) : nearest n = n := by
  unfold nearest
  rw [nearestNat_of_le hn]
  split <;> omega

/-- Whole numbers that are rounded apart are in the order of what they are rounded to. -/
theorem compare_nearest {n m : Int} (h : nearest n ≠ nearest m) :
    compare (nearest n) (nearest m) = compare n m := by
  rcases lt_trichotomy n m with hlt | rfl | hgt
  · rw [compare_lt_iff_lt.2 hlt, compare_lt_iff_lt.2 (lt_of_le_of_ne (nearest_mono hlt.le) h)]
  · exact absurd rfl h
  · rw [compare_gt_iff_gt.2 hgt, compare_gt_iff_gt.2 (lt_of_le_of_ne (nearest_mono hgt.le) h.symm)]

/-- A natural number with a unit above one has more than 53 digits. -/
theorem FillsUnits.log2_eq {n m d k : Nat} (h : FillsUnits m d k) (hv : n * d = m * 2 ^ k) :
    n.log2 = 52 + k := by
  have hfull : 2 ^ 52 * d ≤ m := h.full.resolve_right (by omega)
  have hd := h.pos
  have hlow : 2 ^ (52 + k) * d ≤ n * d := by
    rw [hv, pow_add, Nat.mul_right_comm]
    exact Nat.mul_le_mul_right _ hfull
  have hlt : n * d < 2 ^ (52 + k + 1) * d := by
    rw [hv, show 52 + k + 1 = 53 + k by omega, pow_add, Nat.mul_right_comm]
    exact Nat.mul_lt_mul_of_pos_right h.lt (by positivity)
  have hlow : 2 ^ (52 + k) ≤ n := Nat.le_of_mul_le_mul_right hlow hd
  exact (Nat.log2_eq_iff (by have := Nat.two_pow_pos (52 + k); omega)).2
    ⟨hlow, Nat.lt_of_mul_lt_mul_right hlt⟩

theorem FillsUnits.halfEven_mul_of_nat {n m d : Nat} {t : Int} (h : FillsUnits m d t)
    (hv : (n : ℚ) = m / d * 2 ^ t) : (halfEven m d : ℚ) * 2 ^ t = nearestNat n := by
  have hd : (d : ℚ) ≠ 0 := Nat.cast_ne_zero.2 h.pos.ne'
  rcases le_total t 0 with ht | ht
  · -- units of one or less: nothing is rounded
    obtain ⟨k, rfl⟩ : ∃ k : Nat, t = -(k : Int) := ⟨t.natAbs, by omega⟩
    have hm : m = n * 2 ^ k * d := by
      rw [zpow_neg, zpow_natCast] at hv
      field_simp at hv
      rw [Nat.mul_right_comm]
      exact_mod_cast hv.symm
    have hle : n ≤ 2 ^ 53 := by
      have hlt : n * 2 ^ k < 2 ^ 53 := by
        have := h.lt
        rw [hm] at this
        exact Nat.lt_of_mul_lt_mul_right this
      exact (Nat.le_mul_of_pos_right n (by positivity)).trans hlt.le
    rw [hm, halfEven_mul_right h.pos, nearestNat_of_le hle, zpow_neg, zpow_natCast]
    push_cast
    field_simp
  -- coarser units: the number is rounded to a multiple of them, as `nearestNat` does
  · obtain ⟨k, rfl⟩ := Int.eq_ofNat_of_zero_le ht
    have hm : n * d = m * 2 ^ k := by
      rw [zpow_natCast] at hv
      field_simp at hv
      exact_mod_cast hv
    have hlog := h.log2_eq hm
    rw [nearestNat, hlog, Nat.add_sub_cancel_left, zpow_natCast,
      halfEven_congr h.pos (Nat.two_pow_pos k) hm.symm]
    push_cast
    rfl

theorem cast_apply (s : Sign) (n : Nat) : ((s.apply n : Int) : ℚ) = s.apply 1 * n := by
  cases s
  · show ((-n : Int) : ℚ) = ((-1 : Int) : ℚ) * n
    push_cast
    ring
  · show ((n : Int) : ℚ) = ((1 : Int) : ℚ) * n
    push_cast
    ring

theorem exactValue?_settle (s : Sign) {r : Nat} (hr : r ≤ 2 ^ 53) (t : Int) :
    exactValue? (settle s r t) = some (((s.apply 1 : Int) : ℚ) * (r * 2 ^ t)) := by
  unfold settle
  split
  · next h => rw [h, Nat.cast_zero, zero_mul, mul_zero, exactValue?]
  · split
    · rw [exactValue?, cast_apply, mul_assoc]
    · obtain rfl : r = 2 ^ 53 := by omega
      have hcarry : ((2 ^ 52 : Nat) : ℚ) * 2 ^ (t + 1) = ((2 ^ 53 : Nat) : ℚ) * 2 ^ t := by
        rw [zpow_add₀ two_ne_zero]
        push_cast
        ring
      rw [exactValue?, cast_apply, mul_assoc, hcarry]

/-- A natural number is rounded to 53 digits. -/
theorem Rounds.exactValue?_of_nat {s : Sign} {n : Nat} {u : UnpackedFloat}
    (h : Rounds s (n : ℚ) u) : exactValue? u = some ((s.apply (nearestNat n) : Int) : ℚ) := by
  generalize hv : (n : ℚ) = v at h
  cases h with
  | intro hfills hvalue =>
    rw [exactValue?_settle s hfills.halfEven_le, hfills.halfEven_mul_of_nat (hv.trans hvalue),
      cast_apply s]

/-- What is rounded to a number other than zero has a mantissa. -/
theorem Rounds.exists_finite {s : Sign} {v : ℚ} {u : UnpackedFloat} (h : Rounds s v u)
    (hv : exactValue? u ≠ some 0) : ∃ m e hm, u = .finite s m e hm := by
  cases h with
  | intro hfills hvalue =>
    unfold settle at hv ⊢
    split
    · next hzero =>
      rw [dif_pos hzero] at hv
      exact absurd rfl hv
    · next hzero =>
      split
      · exact ⟨_, _, Nat.pos_of_ne_zero hzero, rfl⟩
      · exact ⟨_, _, by decide, rfl⟩

theorem Rounds.exists_exactValue {s : Sign} {v : ℚ} {u : UnpackedFloat} (h : Rounds s v u) :
    ∃ q, exactValue? u = some q := by
  cases h with
  | intro hfills hvalue => exact ⟨_, exactValue?_settle s hfills.halfEven_le _⟩

/-! ### Doubles of decimal numbers -/

/-- The double is what a number that is not negative is rounded to. -/
def RoundsTo (x : Float) (v : ℚ) : Prop :=
  ∃ u, Rounds .positive v u ∧ x.toModel.unpack = (Float.Model.pack u).unpack

/-- A number is rounded to a finite double exactly below `overflow`. -/
theorem RoundsTo.isFinite_iff {x : Float} {v : ℚ} (h : RoundsTo x v) :
    isFinite x = true ↔ v < overflow := by
  obtain ⟨u, hu, hx⟩ := h
  rw [Number.isFinite_iff, value?, hx]
  rcases lt_or_ge v overflow with hv | hv
  · rw [Number.unpack_pack (hu.canonical hv)]
    exact iff_of_true hu.exists_exactValue hv
  · rw [hu.unpack_pack hv]
    exact iff_of_false (fun ⟨q, hq⟩ => nomatch hq) hv.not_gt

/-- A natural number is rounded to 53 digits. -/
theorem RoundsTo.value?_of_nat {x : Float} {n : Nat} (h : RoundsTo x n)
    (hn : (n : ℚ) < overflow) : value? x = some (nearestNat n : ℚ) := by
  obtain ⟨u, hu, hx⟩ := h
  rw [value?, hx, Number.unpack_pack (hu.canonical hn), hu.exactValue?_of_nat]
  rfl

theorem lt_overflow_of_le {v : ℚ} (hv : v ≤ 2 ^ 64) : v < overflow := by
  have hunit : (2 : ℚ) ^ (64 : Int) ≤ 2 ^ (970 : Int) :=
    zpow_le_zpow_right₀ (by norm_num) (by norm_num)
  have hfactor : (1 : ℚ) < 2 ^ 54 - 1 := by norm_num
  calc v ≤ 1 * 2 ^ (64 : Int) := by rw [one_mul]; exact hv
    _ < (2 ^ 54 - 1) * 2 ^ (64 : Int) := mul_lt_mul_of_pos_right hfactor (zpow_pos two_pos _)
    _ ≤ overflow := by
      rw [overflow_eq]
      exact mul_le_mul_of_nonneg_left hunit (by norm_num)

/-- Is the unpacked double a power of ten, with 53 digits? -/
def isPowerOfTen (i : Nat) : UnpackedFloat → Bool
  | .finite .positive p f _ => 2 ^ 52 ≤ p && p * 2 ^ f.toNat = 10 ^ i * 2 ^ (-f).toNat
  | _ => false

theorem exists_of_isPowerOfTen {i : Nat} {u : UnpackedFloat} (h : isPowerOfTen i u = true) :
    ∃ p f hp, u = .finite .positive p f hp ∧ 2 ^ 52 ≤ p ∧ (p : ℚ) * 2 ^ f = 10 ^ i := by
  unfold isPowerOfTen at h
  split at h
  · next p f hp =>
    rw [Bool.and_eq_true, decide_eq_true_eq, decide_eq_true_eq] at h
    refine ⟨p, f, hp, rfl, h.1, ?_⟩
    have hscaled : (p : ℚ) * 2 ^ f.toNat = 10 ^ i * 2 ^ (-f).toNat := by exact_mod_cast h.2
    have hpos : (2 : ℚ) ^ (-f).toNat ≠ 0 := by positivity
    rw [pow_toNat_eq two_ne_zero f, mul_left_comm, mul_comm] at hscaled
    exact mul_right_cancel₀ hpos hscaled
  · cases h

/-- The table of powers of ten is exact. -/
theorem isPowerOfTen_table : ∀ i : Fin Float.exactlyRepresentablePowersOfTen.size,
    isPowerOfTen i Float.exactlyRepresentablePowersOfTen[i].toModel.unpack = true := by
  decide +kernel

theorem exists_powerOfTen {i : Nat} (hi : i < Float.exactlyRepresentablePowersOfTen.size) :
    ∃ p f hp, Float.exactlyRepresentablePowersOfTen[i].toModel.unpack = .finite .positive p f hp ∧
      2 ^ 52 ≤ p ∧ (p : ℚ) * 2 ^ f = 10 ^ i :=
  exists_of_isPowerOfTen (isPowerOfTen_table ⟨i, hi⟩)

/-- A natural number below `2 ^ 53` is a double, with a mantissa unless it is zero. -/
theorem exists_unpack_toFloat {n : Nat} (hpos : 0 < n) (hn : n < 2 ^ 53) :
    ∃ m e hm, n.toUInt64.toFloat.toModel.unpack = .finite .positive m e hm ∧
      (m : ℚ) * 2 ^ e = n := by
  -- the conversion rounds to the nearest double, which is the number itself
  have hrounds : Rounds .positive (n : ℚ) (UnpackedFloat.round Format.binary64 .positive n 0) := by
    have h := rounds_round .positive hpos 0
    rwa [zpow_zero, mul_one] at h
  have hmodel : n.toUInt64.toFloat.toModel
      = Float.Model.pack (UnpackedFloat.round Format.binary64 .positive n 0) := by
    have htoNat : n.toUInt64.toNat = n := by
      rw [Nat.toUInt64, UInt64.toNat_ofNat', Nat.mod_eq_of_lt (by omega)]
    show Float.Model.pack
      (UnpackedFloat.normalize Format.binary64 (n.toUInt64.toNat : Int) 0 .positive) = _
    rw [htoNat, UnpackedFloat.normalize, compare_gt_iff_gt.2 (by omega : (0 : Int) < n)]
    rfl
  have hlt : (n : ℚ) < overflow :=
    lt_overflow_of_le (by exact_mod_cast hn.le.trans (by norm_num))
  have hvalue := hrounds.exactValue?_of_nat
  rw [nearestNat_of_le hn.le] at hvalue
  have hne : exactValue? (UnpackedFloat.round Format.binary64 .positive n 0) ≠ some 0 := by
    rw [hvalue]
    exact fun h => hpos.ne' (Nat.cast_eq_zero.1 (Option.some_inj.1 h))
  obtain ⟨m, e, hm, hu⟩ := hrounds.exists_finite hne
  refine ⟨m, e, hm, ?_, ?_⟩
  · rw [hmodel, Number.unpack_pack (hrounds.canonical hlt), hu]
  · rw [hu] at hvalue
    exact_mod_cast Option.some_inj.1 hvalue

/-- A quotient below half the least unit is rounded to zero. -/
theorem rounds_zero {n d : Nat} (h : 2 * (n * 2 ^ 1074) < d) :
    Rounds .positive (n / d) (.zero .positive) := by
  have hscale : ∀ k : Nat, (n / d : ℚ) = ((n * 2 ^ k : Nat) : ℚ) / d * 2 ^ (-(k : Int)) := by
    intro k
    rw [zpow_neg, zpow_natCast]
    push_cast
    field_simp
  have hvalue := hscale 1074
  generalize n * 2 ^ 1074 = m at h hvalue
  have hzero : halfEven m d = 0 := by
    rw [halfEven, Nat.mod_eq_of_lt (by omega), if_pos h, Nat.div_eq_of_lt (by omega)]
  have hrounds := Rounds.intro (s := .positive) (t := -(1074 : Nat))
    ⟨by omega, by omega, le_rfl, .inr rfl⟩ hvalue
  rwa [hzero] at hrounds

/-- A number over a power of ten that is far greater is below half the least double. -/
theorem two_mul_lt_ten_pow {n k : Nat} (h : 2 ^ 11 + n.log2 < k) :
    2 * (n * 2 ^ 1074) < 10 ^ k := by
  have hn : n * 2 ^ 1074 < 2 ^ (n.log2 + 1) * 2 ^ 1074 :=
    Nat.mul_lt_mul_of_pos_right Nat.lt_log2_self (pow_pos two_pos 1074)
  calc 2 * (n * 2 ^ 1074) < 2 * (2 ^ (n.log2 + 1) * 2 ^ 1074) :=
        Nat.mul_lt_mul_of_pos_left hn two_pos
    _ = 2 ^ (n.log2 + 1076) := by rw [← pow_add, ← pow_succ']
    _ ≤ 2 ^ k := Nat.pow_le_pow_right two_pos (by omega)
    _ ≤ 10 ^ k := Nat.pow_le_pow_left (by norm_num) k

/-- A natural number over a power of ten. -/
theorem rounds_ofScientific {n : Nat} (hpos : 0 < n) (k : Nat) :
    Rounds .positive (n / 10 ^ k) (UnpackedFloat.ofScientific Format.binary64 n (-(k : Int))) := by
  have hlow : ¬ -(k : Int) > 2 ^ Format.binary64.exponentBits := by
    show ¬ (2 ^ 11 : Int) < -(k : Int)
    omega
  rw [UnpackedFloat.ofScientific, dif_neg hpos.ne', if_neg hlow]
  split
  · -- so small a number that no power of ten is formed
    next hsmall =>
    have hsmall : 2 ^ 11 + n.log2 < k := by
      have hsmall : -(k : Int) < -((2 ^ 11 : Int) + n.log2) := hsmall
      omega
    have h := rounds_zero (two_mul_lt_ten_pow hsmall)
    rwa [Nat.cast_pow, Nat.cast_ofNat] at h
  · split
    · next hk =>
      obtain rfl : k = 0 := by omega
      have hm : 0 < n <<< 53 := by
        rw [Nat.shiftLeft_eq]
        positivity
      -- no power of ten: the number is shifted up and multiplied by one
      have hmul := rounds_mul .positive .positive (e := -53) (f := 0) hm (n := 1) one_pos <| by
        rw [Nat.shiftLeft_eq, mul_one]
        omega
      have hvalue : ((n <<< 53 : Nat) : ℚ) * 2 ^ (-53 : Int) * ((1 : Nat) * 2 ^ (0 : Int))
          = n / 10 ^ 0 := by
        rw [Nat.shiftLeft_eq, zpow_zero, zpow_neg, pow_zero]
        push_cast
        field_simp
      rw [hvalue] at hmul
      exact hmul
    · have hdiv := rounds_div .positive .positive (e := 0) (f := 0) hpos
        (Nat.pow_pos (n := (- -(k : Int)).toNat) (show 0 < 10 by decide))
      have hvalue : (n : ℚ) * 2 ^ (0 : Int) / ((10 ^ (- -(k : Int)).toNat : Nat) * 2 ^ (0 : Int))
          = n / 10 ^ k := by
        rw [neg_neg, Int.toNat_natCast, zpow_zero, mul_one, mul_one]
        push_cast
        rfl
      rw [hvalue] at hdiv
      exact hdiv

/-- The double of a natural number. -/
theorem roundsTo_ofNat {n : Nat} (hpos : 0 < n) : RoundsTo (Float.ofNat n) n := by
  show RoundsTo (Float.ofScientific n false 0) n
  by_cases hfast : n < 2 ^ 53
  · obtain ⟨m, e, hm, hunpack, hvalue⟩ := exists_unpack_toFloat hpos hfast
    obtain ⟨p, f, hp, hone, hfull, hpower⟩ := exists_powerOfTen (i := 0) (by decide)
    have hmul := rounds_mul .positive .positive (e := e) (f := f) hm hp
      (hfull.trans (Nat.le_mul_of_pos_left p hm))
    rw [hvalue, hpower, pow_zero, mul_one] at hmul
    refine ⟨_, hmul, ?_⟩
    rw [Float.ofScientific, dif_pos ⟨hfast, by omega⟩]
    show (Float.Model.pack (UnpackedFloat.mul _ (n.toUInt64.toFloat.toModel.unpack) _)).unpack = _
    rw [hunpack]
    exact congrArg (fun u => (Float.Model.pack (UnpackedFloat.mul Format.binary64 _ u)).unpack) hone
  · have h := rounds_ofScientific hpos 0
    rw [pow_zero, div_one] at h
    refine ⟨_, h, ?_⟩
    rw [Float.ofScientific, dif_neg (fun h => hfast h.1)]
    rfl

/-- The double of a natural number over a power of ten. -/
theorem roundsTo_ofScientific {n : Nat} (hpos : 0 < n) (k : Nat) :
    RoundsTo (Float.ofScientific n true k) (n / 10 ^ k) := by
  by_cases hfast : n < 2 ^ 53 ∧ k ≤ 22
  · obtain ⟨m, e, hm, hunpack, hvalue⟩ := exists_unpack_toFloat hpos hfast.1
    obtain ⟨p, f, hp, hten, -, hpower⟩ := exists_powerOfTen (Nat.lt_succ_of_le hfast.2)
    have hdiv := rounds_div .positive .positive (e := e) (f := f) hm hp
    rw [hvalue, hpower] at hdiv
    refine ⟨_, hdiv, ?_⟩
    rw [Float.ofScientific, dif_pos hfast]
    show (Float.Model.pack (UnpackedFloat.div _ (n.toUInt64.toFloat.toModel.unpack) _)).unpack = _
    rw [hunpack]
    exact congrArg (fun u => (Float.Model.pack (UnpackedFloat.div Format.binary64 _ u)).unpack) hten
  · refine ⟨_, rounds_ofScientific hpos k, ?_⟩
    rw [Float.ofScientific, dif_neg hfast]
    rfl

/-- A whole number of at most 64 digits is rounded to 53. -/
theorem value?_ofInt {n : Int} (hn : n.natAbs ≤ 2 ^ 64) :
    value? (Float.ofInt n) = some (nearest n : ℚ) := by
  have hnat : ∀ {k : Nat}, k ≤ 2 ^ 64 → value? (Float.ofNat k) = some (nearestNat k : ℚ) := by
    intro k hk
    rcases Nat.eq_zero_or_pos k with rfl | hpos
    · rfl
    · exact (roundsTo_ofNat hpos).value?_of_nat (lt_overflow_of_le (by exact_mod_cast hk))
  cases n with
  | ofNat k =>
    rw [nearest, if_neg (by simp)]
    exact hnat hn
  | negSucc k =>
    have hneg := value?_neg (Float.ofNat (k + 1))
    rw [hnat (k := k + 1) hn] at hneg
    rw [nearest, if_pos (Int.negSucc_lt_zero k), Int.cast_neg]
    exact hneg

end MotifQuery.Number
