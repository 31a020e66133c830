import MotifQuery.Proofs.Number.Double

/-!
# `MotifQuery.Proofs.Number.Rounding`: how numbers become doubles

Arithmetic on doubles rounds its exact result to 53 digits, half to even. `Rounds` says so
without a word on shifts and bits: the result is a whole number of units `2 ^ t`, and the
unit is as fine as 53 digits allow. Rounding a mantissa with an exponent is `Rounds`
(`rounds_round`), and so is a quotient (`rounds_div`).

A number is rounded to an infinity exactly from `overflow` on, half a unit above the
greatest double (`Rounds.canonical`, `Rounds.unpack_pack`).
-/

set_option autoImplicit false

namespace MotifQuery.Number

open Float.Model Float.Model.UnpackedFloat

/-! ### Quotients to the nearest whole number -/

/-- A quotient to the nearest whole number, half to even. -/
def halfEven (n d : Nat) : Nat :=
  if 2 * (n % d) < d then n / d
  else if d < 2 * (n % d) then n / d + 1
  else n / d + n / d % 2

section HalfEven
variable {n d n' d' : Nat}

theorem halfEven_mul_left {c : Nat} (hc : 0 < c) (n d : Nat) :
    halfEven (c * n) (c * d) = halfEven n d := by
  have hlt : ∀ a b : Nat, 2 * (c * a) < c * b ↔ 2 * a < b := fun a b => by
    rw [show 2 * (c * a) = c * (2 * a) by ring, Nat.mul_lt_mul_left hc]
  have hgt : ∀ a b : Nat, c * b < 2 * (c * a) ↔ b < 2 * a := fun a b => by
    rw [show 2 * (c * a) = c * (2 * a) by ring, Nat.mul_lt_mul_left hc]
  simp only [halfEven, Nat.mul_mod_mul_left, Nat.mul_div_mul_left _ _ hc, hlt, hgt]

/-- Equal quotients are rounded alike. -/
theorem halfEven_congr (hd : 0 < d) (hd' : 0 < d') (h : n * d' = n' * d) :
    halfEven n d = halfEven n' d' := by
  rw [← halfEven_mul_left hd' n d, ← halfEven_mul_left hd n' d', Nat.mul_comm d' n, h,
    Nat.mul_comm n' d, Nat.mul_comm d' d]

theorem halfEven_mul_right (hd : 0 < d) (q : Nat) : halfEven (q * d) d = q := by
  rw [halfEven, Nat.mul_mod_left, if_pos (by omega), Nat.mul_div_cancel _ hd]

theorem le_halfEven (n d : Nat) : n / d ≤ halfEven n d := by
  unfold halfEven
  split
  · exact le_rfl
  · split <;> omega

theorem halfEven_le (n d : Nat) : halfEven n d ≤ n / d + 1 := by
  unfold halfEven
  split
  · omega
  · split <;> omega

theorem halfEven_mono {m : Nat} (h : n ≤ m) : halfEven n d ≤ halfEven m d := by
  rcases (Nat.div_le_div_right (c := d) h).lt_or_eq with hlt | heq
  · exact (halfEven_le n d).trans (hlt.trans_le (le_halfEven m d))
  · -- the same quotient, so the remainders decide
    have hmod : n % d ≤ m % d := by
      have hn := Nat.div_add_mod n d
      have hm := Nat.div_add_mod m d
      rw [heq] at hn
      omega
    unfold halfEven
    rw [heq]
    split_ifs <;> omega

end HalfEven

/-! ### Shifting a mantissa -/

/-- A quotient as a mantissa with the two bits that say how it is to be rounded. -/
def quotient (n d : Nat) : ExtendedMantissa :=
  .ofMantissaAndAccuracy (n / d) (accuracyOfFraction (n % d) d)

theorem quotient_eq {d : Nat} (hd : 0 < d) (n : Nat) :
    quotient n d
      = ⟨n / d, decide (d ≤ 2 * (n % d)), decide (n % d ≠ 0 ∧ 2 * (n % d) ≠ d)⟩ := by
  unfold quotient accuracyOfFraction
  split
  · next h =>
    rw [ExtendedMantissa.ofMantissaAndAccuracy, h]
    simp
    omega
  · next h =>
    rcases lt_trichotomy (2 * (n % d)) d with hlt | heq | hgt
    · rw [compare_lt_iff_lt.2 hlt, ExtendedMantissa.ofMantissaAndAccuracy]
      simp
      omega
    · rw [compare_eq_iff_eq.2 heq, ExtendedMantissa.ofMantissaAndAccuracy]
      simp
      omega
    · rw [compare_gt_iff_gt.2 hgt, ExtendedMantissa.ofMantissaAndAccuracy]
      simp
      omega

/-- A shift by one digit halves the quotient. -/
theorem shiftRightOne_quotient {d : Nat} (hd : 0 < d) (n : Nat) :
    (quotient n d).shiftRightOne = quotient n (d * 2) := by
  have hmod : n % (d * 2) = n % d + d * (n / d % 2) := Nat.mod_mul
  have hlt : n % d < d := Nat.mod_lt _ hd
  rw [quotient_eq hd, quotient_eq (by omega), ExtendedMantissa.shiftRightOne]
  have hbit : n / d % 2 = 0 ∨ n / d % 2 = 1 := by omega
  simp only [ExtendedMantissa.mk.injEq, Nat.div_div_eq_div_mul, true_and, hmod]
  rcases hbit with hbit | hbit
  · rw [hbit, mul_zero, add_zero, decide_eq_false (by omega)]
    refine ⟨rfl, ?_⟩
    rw [Bool.eq_iff_iff]
    simp only [Bool.or_eq_true, decide_eq_true_eq]
    omega
  · rw [hbit, mul_one, decide_eq_true (by omega)]
    refine ⟨rfl, ?_⟩
    rw [Bool.eq_iff_iff]
    simp only [Bool.or_eq_true, decide_eq_true_eq]
    omega

theorem shiftRight_quotient {d : Nat} (hd : 0 < d) (n k : Nat) :
    quotient n d >>> k = quotient n (d * 2 ^ k) := by
  induction k with
  | zero => rw [pow_zero, mul_one]; rfl
  | succ k ih =>
    show (quotient n d >>> k).shiftRightOne = _
    rw [ih, shiftRightOne_quotient (by positivity), pow_succ, mul_assoc]

theorem roundedMantissa_quotient {d : Nat} (hd : 0 < d) (n : Nat) :
    (quotient n d).roundedMantissa = halfEven n d := by
  have hlt : n % d < d := Nat.mod_lt _ hd
  rw [quotient_eq hd, ExtendedMantissa.roundedMantissa, halfEven]
  rcases lt_trichotomy (2 * (n % d)) d with h | h | h
  · rw [if_pos h, decide_eq_false (by omega)]
    by_cases hzero : n % d = 0 <;>
      simp [hzero, h.ne, ExtendedMantissa.accuracy, Accuracy.roundToNearestEven]
  · have hzero : n % d ≠ 0 := by omega
    rw [if_neg (by omega), if_neg (by omega), decide_eq_true h.ge, decide_eq_false (by omega)]
    rfl
  · have hzero : n % d ≠ 0 := by omega
    rw [if_neg (by omega), if_pos h, decide_eq_true h.le, decide_eq_true ⟨hzero, h.ne'⟩]
    rfl

/-! ### Rounding -/

/-- The unpacked double of a whole number of units `2 ^ t`, at most `2 ^ 53`. -/
def settle (s : Sign) (r : Nat) (t : Int) : UnpackedFloat :=
  if h : r = 0 then .zero s
  else if r < 2 ^ 53 then .finite s r t (Nat.pos_of_ne_zero h)
  else .finite s (2 ^ 52) (t + 1) (by decide)

/-- The quotient, in units of `2 ^ t`, has 53 digits before the point, or fewer at the least
exponent. -/
structure FillsUnits (n d : Nat) (t : Int) : Prop where
  pos : 0 < d
  lt : n < 2 ^ 53 * d
  low : -1074 ≤ t
  full : 2 ^ 52 * d ≤ n ∨ t = -1074

/-- The unpacked double is what `v` is rounded to, with the sign. -/
inductive Rounds (s : Sign) (v : ℚ) : UnpackedFloat → Prop where
  | intro {n d : Nat} {t : Int} (hfills : FillsUnits n d t) (hv : v = n / d * 2 ^ t) :
      Rounds s v (settle s (halfEven n d) t)

/-- The exponent of the unit for a mantissa and its exponent. -/
theorem targetExponent_eq (m : Nat) (e : Int) :
    Format.binary64.targetExponent (totalExponent m e) = max (m.log2 + e - 52) (-1074) := by
  show max ((m.log2 : Int) + 1 + e - 53) (3 - 2 ^ 10 - 53) = _
  norm_num
  omega

/-- A shift of the second kind: what has been rounded already moves by a digit at most. -/
theorem shift_rounded {r : Nat} {t : Int} (hr : r ≤ 2 ^ 53) (ht : -1074 ≤ t) :
    shiftToTargetExponent Format.binary64 r t .exact
      = if r < 2 ^ 53 then (⟨r, false, false⟩, t) else (⟨2 ^ 52, false, false⟩, t + 1) := by
  rw [shiftToTargetExponent, targetExponent_eq]
  split
  · next hlt =>
    have hlog : r.log2 < 53 ∨ r = 0 := by
      rcases Nat.eq_zero_or_pos r with h | h
      · exact .inr h
      · exact .inl ((Nat.log2_lt h.ne').2 hlt)
    have hlog : r.log2 ≤ 52 := by
      rcases hlog with h | rfl
      · omega
      · decide
    have hshift : (max ((r.log2 : Int) + t - 52) (-1074) - t).toNat = 0 := by omega
    rw [shiftToExponent, hshift]
    show (_, t + 0) = _
    rw [add_zero]
    rfl
  · next hge =>
    -- the carry: one more digit, which is a zero at the end
    obtain rfl : r = 2 ^ 53 := by omega
    have hshift : (max (((2 ^ 53 : Nat).log2 : Int) + t - 52) (-1074) - t).toNat = 1 := by
      rw [Nat.log2_two_pow]
      omega
    rw [shiftToExponent, hshift]
    rfl

/-- After the first shift the mantissa is rounded and settled. -/
theorem roundWithAccuracy_of_shift (s : Sign) {m : Nat} {e t : Int} {acc : Accuracy}
    {em : ExtendedMantissa}
    (hshift : shiftToTargetExponent Format.binary64 m e acc = (em, t))
    (hle : em.roundedMantissa ≤ 2 ^ 53) (ht : -1074 ≤ t) :
    roundWithAccuracy Format.binary64 s m e acc = settle s em.roundedMantissa t := by
  have hagain := shift_rounded hle ht
  rw [roundWithAccuracy, hshift]
  split at hagain
  · next hlt => simp only [hagain, settle, if_pos hlt]
  · next hge =>
    have hne : em.roundedMantissa ≠ 0 := by omega
    simp only [hagain, settle, if_neg hge, dif_neg hne]
    rfl

/-- The unit for a quotient: fine enough for 53 digits. -/
theorem fillsUnits_quotient {n d : Nat} {e : Int} (hd : 0 < d)
    (hfull : 2 ^ 52 * d ≤ n ∨ e ≤ -1074) :
    ∃ k : Nat, e + k = max ((n / d).log2 + e - 52) (-1074) ∧
      FillsUnits n (d * 2 ^ k) (e + k) := by
  have hlog : 2 ^ 52 * d ≤ n → 52 ≤ (n / d).log2 := fun h => by
    have hdiv : 2 ^ 52 ≤ n / d := (Nat.le_div_iff_mul_le hd).2 h
    exact (Nat.le_log2 (by omega)).2 hdiv
  have hle : e ≤ max ((n / d).log2 + e - 52) (-1074) := by
    rcases hfull with h | h
    · have := hlog h
      omega
    · omega
  -- the units only get coarser, by doubling
  obtain ⟨k, hk⟩ := Int.eq_ofNat_of_zero_le (Int.sub_nonneg.2 hle)
  have hk : e + k = max ((n / d).log2 + e - 52) (-1074) := by omega
  refine ⟨k, hk, by positivity, ?_, by omega, ?_⟩
  · have hlt : n / d + 1 ≤ 2 ^ (53 + k) :=
      (Nat.succ_le_of_lt Nat.lt_log2_self).trans (Nat.pow_le_pow_right two_pos (by omega))
    calc n < (n / d + 1) * d := by
          have := Nat.lt_mul_div_succ n hd
          rwa [Nat.mul_comm] at this
      _ ≤ 2 ^ (53 + k) * d := Nat.mul_le_mul_right d hlt
      _ = 2 ^ 53 * (d * 2 ^ k) := by ring
  -- in the finest units the number may have fewer digits
  · by_cases hmin : e + (k : Int) = -1074
    · exact .inr hmin
    · left
      have hk : (n / d).log2 = 52 + k := by omega
      have hne : n / d ≠ 0 := by
        rintro h
        rw [h] at hk
        simp at hk
        omega
      calc 2 ^ 52 * (d * 2 ^ k) = 2 ^ (n / d).log2 * d := by rw [hk]; ring
        _ ≤ n / d * d := Nat.mul_le_mul_right d (Nat.log2_self_le hne)
        _ ≤ n := Nat.div_mul_le_self n d

/-- A quotient in its units is at most `2 ^ 53`. -/
theorem FillsUnits.halfEven_le {n d : Nat} {t : Int} (h : FillsUnits n d t) :
    halfEven n d ≤ 2 ^ 53 := by
  have hlt : n / d < 2 ^ 53 := (Nat.div_lt_iff_lt_mul h.pos).2 h.lt
  have := Number.halfEven_le n d
  omega

/-- Rounding a quotient gives what it is rounded to, when its exponent leaves no digits
missing. -/
theorem rounds_quotient (s : Sign) {n d : Nat} {e : Int} (hd : 0 < d)
    (hfull : 2 ^ 52 * d ≤ n ∨ e ≤ -1074) :
    Rounds s (n / d * 2 ^ e)
      (roundWithAccuracy Format.binary64 s (n / d) e (accuracyOfFraction (n % d) d)) := by
  obtain ⟨k, hk, hfills⟩ := fillsUnits_quotient hd hfull
  have hshift : (Format.binary64.targetExponent (totalExponent (n / d) e) - e).toNat = k := by
    rw [targetExponent_eq, ← hk]
    omega
  have hfirst : shiftToTargetExponent Format.binary64 (n / d) e (accuracyOfFraction (n % d) d)
      = (quotient n (d * 2 ^ k), e + k) := by
    rw [shiftToTargetExponent, shiftToExponent, hshift, ← shiftRight_quotient hd]
    rfl
  have hrounded := roundedMantissa_quotient hfills.pos n
  rw [roundWithAccuracy_of_shift s hfirst (hrounded ▸ hfills.halfEven_le) hfills.low, hrounded]
  refine .intro hfills ?_
  rw [zpow_add₀ two_ne_zero, zpow_natCast]
  push_cast
  field_simp

/-! ### Where the rounded numbers come from -/

/-- A mantissa and an exponent. -/
theorem rounds_round (s : Sign) {m : Nat} (hm : 0 < m) (e : Int) :
    Rounds s (m * 2 ^ e) (UnpackedFloat.round Format.binary64 s m e) := by
  -- a number is a quotient by one
  have hround : ∀ (m : Nat) (e : Int), 2 ^ 52 ≤ m ∨ e ≤ -1074 →
      Rounds s (m * 2 ^ e) (roundWithAccuracy Format.binary64 s m e .exact) := by
    intro m e hfull
    have h := rounds_quotient s (n := m) (d := 1) (e := e) one_pos (by omega)
    rwa [Nat.div_one, Nat.mod_one, Nat.cast_one, div_one] at h
  rw [UnpackedFloat.round, targetExponent_eq]
  obtain ⟨k, hk⟩ : ∃ k : Nat, (e - max ((m.log2 : Int) + e - 52) (-1074)).toNat = k := ⟨_, rfl⟩
  have hvalue : (m : ℚ) * 2 ^ e = ((m <<< k : Nat) : ℚ) * 2 ^ (e - (k : Int)) := by
    rw [Nat.shiftLeft_eq, zpow_sub₀ two_ne_zero, zpow_natCast]
    push_cast
    field_simp
  rw [hvalue, decreaseExponent, hk]
  refine hround _ _ ?_
  rw [Nat.shiftLeft_eq]
  -- shifted up it has all 53 digits, unless the exponent is the least one
  by_cases hmin : e - (k : Int) ≤ -1074
  · exact .inr hmin
  · left
    have hlow : 52 ≤ m.log2 + k := by omega
    calc 2 ^ 52 ≤ 2 ^ (m.log2 + k) := Nat.pow_le_pow_right two_pos hlow
      _ = 2 ^ m.log2 * 2 ^ k := pow_add _ _ _
      _ ≤ m * 2 ^ k := Nat.mul_le_mul_right _ (Nat.log2_self_le hm.ne')

/-- A product, when the mantissas have 53 digits together. -/
theorem rounds_mul (s t : Sign) {m n : Nat} {e f : Int} (hm : 0 < m) (hn : 0 < n)
    (hfull : 2 ^ 52 ≤ m * n) :
    Rounds (s * t) (m * 2 ^ e * (n * 2 ^ f))
      (UnpackedFloat.mul Format.binary64 (.finite s m e hm) (.finite t n f hn)) := by
  have h := rounds_quotient (s * t) (n := m * n) (d := 1) (e := e + f) one_pos (by omega)
  rw [Nat.div_one, Nat.mod_one, Nat.cast_one, div_one, zpow_add₀ two_ne_zero, Nat.cast_mul] at h
  rw [mul_mul_mul_comm]
  exact h

/-- A quotient of a mantissa and an exponent by another. -/
theorem rounds_div (s t : Sign) {m n : Nat} {e f : Int} (hm : 0 < m) (hn : 0 < n) :
    Rounds (s / t) (m * 2 ^ e / (n * 2 ^ f))
      (UnpackedFloat.div Format.binary64 (.finite s m e hm) (.finite t n f hn)) := by
  have htarget : Format.binary64.targetExponent (totalExponent m e - totalExponent n f)
      = max ((m.log2 : Int) - n.log2 + (e - f) - 53) (-1074) := by
    show max ((m.log2 : Int) + 1 + e - (n.log2 + 1 + f) - 53) (3 - 2 ^ 10 - 53) = _
    norm_num
    congr 1
    omega
  obtain ⟨k, hk⟩ := Int.eq_ofNat_of_zero_le (a := e - f
    - min (e - f) (max ((m.log2 : Int) - n.log2 + (e - f) - 53) (-1074))) (by omega)
  -- the dividend is shifted so far that the quotient has 53 digits
  have hdiv : UnpackedFloat.div Format.binary64 (.finite s m e hm) (.finite t n f hn)
      = roundWithAccuracy Format.binary64 (s / t) (m * 2 ^ k / n) (e - f - k)
          (accuracyOfFraction (m * 2 ^ k % n) n) := by
    have hexponent : min (e - f) (max ((m.log2 : Int) - n.log2 + (e - f) - 53) (-1074))
        = e - f - k := by omega
    simp only [UnpackedFloat.div, divCore, htarget, hk, Int.toNat_natCast, Nat.shiftLeft_eq]
    rw [hexponent]
  have hfull : 2 ^ 52 * n ≤ m * 2 ^ k ∨ e - f - k ≤ -1074 := by
    by_cases hmin : e - f - (k : Int) ≤ -1074
    · exact .inr hmin
    · left
      have hshift : 52 + (n.log2 + 1) ≤ m.log2 + k := by omega
      calc 2 ^ 52 * n ≤ 2 ^ 52 * 2 ^ (n.log2 + 1) :=
            Nat.mul_le_mul_left _ Nat.lt_log2_self.le
        _ = 2 ^ (52 + (n.log2 + 1)) := (pow_add _ _ _).symm
        _ ≤ 2 ^ (m.log2 + k) := Nat.pow_le_pow_right two_pos hshift
        _ = 2 ^ m.log2 * 2 ^ k := pow_add _ _ _
        _ ≤ m * 2 ^ k := Nat.mul_le_mul_right _ (Nat.log2_self_le hm.ne')
  have hvalue : (m : ℚ) * 2 ^ e / (n * 2 ^ f)
      = ((m * 2 ^ k : Nat) : ℚ) / n * 2 ^ (e - f - (k : Int)) := by
    have hn' : (n : ℚ) ≠ 0 := Nat.cast_ne_zero.2 hn.ne'
    rw [zpow_sub₀ two_ne_zero, zpow_sub₀ two_ne_zero, zpow_natCast]
    push_cast
    field_simp
  rw [hdiv, hvalue]
  exact rounds_quotient (s / t) hn hfull

/-! ### Infinities -/

/-- The least number that is rounded to an infinity: half a unit above the greatest double. -/
def overflow : ℚ :=
  2 ^ 1024 - 2 ^ 970

theorem overflow_eq : overflow = (2 ^ 54 - 1) * 2 ^ (970 : Int) := by
  rw [overflow, show (1024 : ℕ) = 54 + 970 from rfl, pow_add, sub_mul, one_mul]
  rfl

/-- The greatest mantissa is rounded up from half a unit on. -/
theorem halfEven_lt_iff {n d : Nat} (hd : 0 < d) (hn : n < 2 ^ 53 * d) :
    halfEven n d < 2 ^ 53 ↔ 2 * n < (2 ^ 54 - 1) * d := by
  have hq : n / d < 2 ^ 53 := (Nat.div_lt_iff_lt_mul hd).2 hn
  have hn : d * (n / d) + n % d = n := Nat.div_add_mod n d
  have hrem : n % d < d := Nat.mod_lt _ hd
  by_cases hlast : n / d = 2 ^ 53 - 1
  · rw [hlast] at hn
    rw [halfEven, hlast]
    split
    · omega
    · split <;> omega
  · -- one unit below the greatest mantissa there is room to round up
    have hle := halfEven_le n d
    have hmul : d * (n / d) ≤ d * (2 ^ 53 - 2) := Nat.mul_le_mul_left d (by omega)
    omega

section Settle
variable {n d : Nat} {t : Int}

/-- What is settled below the greatest exponent fits into a double. -/
theorem FillsUnits.canonical_settle (s : Sign) (h : FillsUnits n d t)
    (ht : t ≤ 970 ∨ t = 971 ∧ halfEven n d < 2 ^ 53) : Canonical (settle s (halfEven n d) t) := by
  have hle := h.halfEven_le
  have hfull : 2 ^ 52 ≤ halfEven n d ∨ t = -1074 := h.full.imp_left fun hfull =>
    ((Nat.le_div_iff_mul_le h.pos).2 hfull).trans (le_halfEven n d)
  unfold settle
  split
  · exact .zero s
  · split
    · next hlt => exact .finite s _ ⟨hlt, h.low, hfull⟩ (by omega)
    · have hlow := h.low
      exact .finite s _ ⟨by norm_num, by omega, .inl le_rfl⟩ (by omega)

/-- What is settled above the greatest exponent is an infinity. -/
theorem FillsUnits.unpack_pack_settle (s : Sign) (h : FillsUnits n d t)
    (ht : 972 ≤ t ∨ t = 971 ∧ 2 ^ 53 ≤ halfEven n d) :
    (Float.Model.pack (settle s (halfEven n d) t)).unpack = .infinity s := by
  have hfull : 2 ^ 52 * d ≤ n := h.full.resolve_right (by omega)
  have hlow : 2 ^ 52 ≤ halfEven n d :=
    ((Nat.le_div_iff_mul_le h.pos).2 hfull).trans (le_halfEven n d)
  rw [settle, dif_neg (by omega)]
  split
  · exact unpack_pack_of_high s _ (by omega)
  · exact unpack_pack_of_high s _ (by omega)

/-- Numbers below `overflow` are those whose units have a low exponent, or the greatest one
without a carry. -/
theorem FillsUnits.lt_overflow_iff (h : FillsUnits n d t) :
    (n / d * 2 ^ t : ℚ) < overflow ↔ t ≤ 970 ∨ t = 971 ∧ halfEven n d < 2 ^ 53 := by
  have hd : (0 : ℚ) < d := by exact_mod_cast h.pos
  have hlt : (n / d : ℚ) < 2 ^ 53 := by
    rw [div_lt_iff₀ hd]
    exact_mod_cast h.lt
  have hunit : (0 : ℚ) < 2 ^ (970 : Int) := by positivity
  -- in the coarsest units a carry to the next power of two decides
  rcases lt_trichotomy t 971 with ht | rfl | ht
  · refine iff_of_true ?_ (.inl (by omega))
    have hpow : (2 : ℚ) ^ t ≤ 2 ^ (970 : Int) := zpow_le_zpow_right₀ (by norm_num) (by omega)
    calc (n / d * 2 ^ t : ℚ) ≤ 2 ^ 53 * 2 ^ (970 : Int) :=
          mul_le_mul hlt.le hpow (by positivity) (by positivity)
      _ < overflow := by
          rw [overflow_eq]
          exact mul_lt_mul_of_pos_right (by norm_num) hunit
  · have hiff : (n / d * 2 ^ (971 : Int) : ℚ) < overflow ↔ 2 * n < (2 ^ 54 - 1) * d := by
      have hval : (n / d * 2 ^ (971 : Int) : ℚ) = 2 * n / d * 2 ^ (970 : Int) := by
        rw [show (971 : Int) = 970 + 1 from rfl, zpow_add₀ two_ne_zero]
        ring
      have hcast : ((2 ^ 54 - 1 : Nat) : ℚ) = 2 ^ 54 - 1 := by norm_num
      rw [hval, overflow_eq, mul_lt_mul_iff_left₀ hunit, div_lt_iff₀ hd, ← hcast]
      exact_mod_cast Iff.rfl
    rw [hiff, ← halfEven_lt_iff h.pos h.lt]
    simp
  · refine iff_of_false (not_lt.2 ?_) (by omega)
    have hfull : 2 ^ 52 * d ≤ n := h.full.resolve_right (by omega)
    have hlow : (2 ^ 52 : ℚ) ≤ n / d := by
      rw [le_div_iff₀ hd]
      exact_mod_cast hfull
    have hpow : (2 : ℚ) ^ (972 : Int) ≤ 2 ^ t := zpow_le_zpow_right₀ (by norm_num) (by omega)
    calc overflow ≤ 2 ^ 54 * 2 ^ (970 : Int) := by
          rw [overflow_eq]
          exact mul_le_mul_of_nonneg_right (by norm_num) hunit.le
      _ = 2 ^ 52 * 2 ^ (972 : Int) := by
          rw [show (972 : Int) = 970 + 2 from rfl, zpow_add₀ two_ne_zero]
          ring
      _ ≤ n / d * 2 ^ t := 
          mul_le_mul hlow hpow (zpow_pos two_pos _).le (div_nonneg n.cast_nonneg d.cast_nonneg)

end Settle

/-- What is rounded to a number fits into a double below `overflow`. -/
theorem Rounds.canonical {s : Sign} {v : ℚ} {u : UnpackedFloat} (h : Rounds s v u)
    (hv : v < overflow) : Canonical u := by
  cases h with
  | intro hfills hvalue =>
    rw [hvalue] at hv
    exact hfills.canonical_settle s (hfills.lt_overflow_iff.1 hv)

/-- From `overflow` on a number is rounded to an infinity. -/
theorem Rounds.unpack_pack {s : Sign} {v : ℚ} {u : UnpackedFloat} (h : Rounds s v u)
    (hv : overflow ≤ v) : (Float.Model.pack u).unpack = .infinity s := by
  cases h with
  | intro hfills hvalue =>
    rw [hvalue] at hv
    have hhigh := mt hfills.lt_overflow_iff.2 hv.not_gt
    exact hfills.unpack_pack_settle s (by omega)

end MotifQuery.Number
