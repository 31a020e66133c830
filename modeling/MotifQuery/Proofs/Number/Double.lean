import Mathlib
import MotifQuery.Motif.Basic

/-!
# `MotifQuery.Proofs.Number.Double`: doubles as numbers

A double that is neither infinite nor undefined stands for a number, its mantissa times a
power of two (`value?`). The mantissa and exponent of a double are settled: the mantissa has
53 digits, or fewer at the least exponent (`Settled`). So two doubles are ordered as their
numbers are (`orderDoubles?_of_value`), and a settled pair is not changed when it is packed
into bits and unpacked again (`unpack_pack`).
-/

set_option autoImplicit false

namespace MotifQuery.Number

open Float.Model Float.Model.UnpackedFloat

/-! ### Numbers -/

/-- The number of an unpacked double, when it is one. -/
def exactValue? : UnpackedFloat → Option ℚ
  | .notANumber => none
  | .infinity _ => none
  | .zero _ => some 0
  | .finite s m e _ => some (s.apply m * 2 ^ e)

/-- The number that a double stands for, when it is finite. -/
def value? (x : Float) : Option ℚ :=
  exactValue? x.toModel.unpack

/-- A mantissa and an exponent as a double has them: 53 digits, or fewer at the least
exponent. -/
structure Settled (m : Nat) (e : Int) : Prop where
  lt : m < 2 ^ 53
  low : -1074 ≤ e
  full : 2 ^ 52 ≤ m ∨ e = -1074

/-- An unpacked double whose mantissa and exponent fit into a double. -/
inductive Canonical : UnpackedFloat → Prop where
  | notANumber : Canonical .notANumber
  | infinity (s : Sign) : Canonical (.infinity s)
  | zero (s : Sign) : Canonical (.zero s)
  | finite (s : Sign) {m : Nat} {e : Int} (hpos : 0 < m) (hsettled : Settled m e)
      (hhigh : e ≤ 971) : Canonical (.finite s m e hpos)

theorem isFinite_iff {x : Float} : isFinite x = true ↔ ∃ q, value? x = some q := by
  show (!x.toModel.unpack.isNaN && !x.toModel.unpack.isInf) = true ↔ _
  unfold value?
  cases x.toModel.unpack <;> simp [exactValue?, UnpackedFloat.isNaN, UnpackedFloat.isInf]

/-! ### Bits -/

/-- The mantissa of a double with the digit that is not stored. -/
theorem toNat_one_append (v : BitVec 52) : (1#1 ++ v).toNat = 2 ^ 52 + v.toNat := by
  rw [BitVec.toNat_append, ← Nat.shiftLeft_add_eq_or_of_lt v.isLt]
  rfl

/-- Unpacking gives settled mantissas and exponents. -/
theorem canonical_unpack (b : BitVec Format.binary64.numBits) :
    Canonical (UnpackedFloat.unpack Format.binary64 b) := by
  have hm : (unpackMantissa b).toNat < 2 ^ 52 := (unpackMantissa b).isLt
  have he : (unpackExponent b).toNat < 2 ^ 11 := (unpackExponent b).isLt
  have hbias : ((Format.binary64.exponentBias : Int)
    + Format.binary64.mantissaBitsWithoutImplicit) = 1075 := rfl
  simp only [UnpackedFloat.unpack, hbias]
  split
  · split
    · exact .infinity _
    · exact .notANumber
  · next hlast =>
    have hlast : (unpackExponent b).toNat ≠ 2 ^ 11 - 1 := fun h => hlast (BitVec.eq_of_toNat_eq h)
    split
    · next hfirst =>
      split
      · exact .zero _
      -- the lowest exponent stands for no leading one
      · have hzero : (unpackExponent b).toNat = 0 := congrArg BitVec.toNat hfirst
        refine .finite _ _ ⟨by omega, by omega, .inr (by omega)⟩ (by omega)
    · next hfirst =>
      have hfirst : (unpackExponent b).toNat ≠ 0 := fun h => hfirst (BitVec.eq_of_toNat_eq h)
      -- a leading one is put before the mantissa
      have hmantissa : (1#1 ++ unpackMantissa b).toNat = 2 ^ 52 + (unpackMantissa b).toNat :=
        toNat_one_append _
      exact .finite _ _ ⟨by omega, by omega, .inl (by omega)⟩ (by omega)

theorem canonical (x : Float) : Canonical x.toModel.unpack :=
  canonical_unpack _

theorem log2_of_full {m : Nat} (hlow : 2 ^ 52 ≤ m) (hlt : m < 2 ^ 53) : m.log2 = 52 :=
  (Nat.log2_eq_iff (by omega)).2 ⟨hlow, hlt⟩

/-- The bits of a mantissa of 53 digits, of which the first is not stored. -/
theorem unpack_packComponents_full (s : Sign) {m : Nat} {e : Int} (hpos : 0 < m)
    (hfull : 2 ^ 52 ≤ m) (hlt : m < 2 ^ 53) (hlow : -1074 ≤ e) (hhigh : e ≤ 971) :
    UnpackedFloat.unpack Format.binary64 (packComponents Format.binary64 s
      (BitVec.ofNat 11 (e + 1075).toNat) (BitVec.ofNat 52 m)) = .finite s m e hpos := by
  have hsum : ((Format.binary64.exponentBias : Int)
    + Format.binary64.mantissaBitsWithoutImplicit) = 1075 := rfl
  have hexponent : (BitVec.ofNat 11 (e + 1075).toNat).toNat = (e + 1075).toNat := by
    rw [BitVec.toNat_ofNat, Nat.mod_eq_of_lt (by omega)]
  have hlast : BitVec.ofNat 11 (e + 1075).toNat ≠ -1#11 := fun h => by
    have := hexponent.symm.trans (congrArg BitVec.toNat h)
    simp only [BitVec.reduceNeg, BitVec.reduceToNat] at this
    omega
  have hfirst : BitVec.ofNat 11 (e + 1075).toNat ≠ 0#11 := fun h => by
    have := hexponent.symm.trans (congrArg BitVec.toNat h)
    simp only [BitVec.toNat_zero] at this
    omega
  have hmantissa : (1#1 ++ BitVec.ofNat 52 m).toNat = m := by
    rw [toNat_one_append, BitVec.toNat_ofNat]
    omega
  simp only [UnpackedFloat.unpack, unpackMantissa_packComponents, unpackExponent_packComponents,
    unpackSign_packComponents, Sign.ofBitVec_toBitVec, if_neg hlast, if_neg hfirst, hmantissa,
    hexponent, hsum]
  congr 1
  omega

/-- The bits of a mantissa with fewer digits, all of which are stored. -/
theorem unpack_packComponents_short (s : Sign) {m : Nat} (hpos : 0 < m) (hlt : m < 2 ^ 52) :
    UnpackedFloat.unpack Format.binary64 (packComponents Format.binary64 s 0#11
      (BitVec.ofNat 52 m)) = .finite s m (-1074) hpos := by
  have hmantissa : (BitVec.ofNat 52 m).toNat = m := by
    rw [BitVec.toNat_ofNat, Nat.mod_eq_of_lt hlt]
  have hne : BitVec.ofNat 52 m ≠ 0#52 := fun h => by
    have := hmantissa.symm.trans (congrArg BitVec.toNat h)
    simp only [BitVec.toNat_zero] at this
    omega
  have hlast : (0#11 : BitVec 11) ≠ -1#11 := by decide
  simp only [UnpackedFloat.unpack, unpackMantissa_packComponents, unpackExponent_packComponents,
    unpackSign_packComponents, Sign.ofBitVec_toBitVec, if_neg hlast, dif_neg hne, hmantissa,
    if_true]
  rfl

/-- A settled mantissa and exponent are the same after packing and unpacking. -/
theorem unpack_pack_finite (s : Sign) {m : Nat} {e : Int} (hpos : 0 < m) (hsettled : Settled m e)
    (hhigh : e ≤ 971) :
    UnpackedFloat.unpack Format.binary64 (UnpackedFloat.pack Format.binary64 (.finite s m e hpos))
      = .finite s m e hpos := by
  obtain ⟨hlt, hlow, hfull⟩ := hsettled
  have hbias : (e + Format.binary64.exponentBias
    + Format.binary64.mantissaBitsWithoutImplicit).toNat = (e + 1075).toNat := by
    show (e + 1023 + 52).toNat = _
    congr 1
    omega
  have hbits : Format.binary64.mantissaBits = 53 := rfl
  have hfits : ¬ 2 ^ Format.binary64.exponentBits ≤ (e + 1075).toNat + 1 := by
    show ¬ 2 ^ 11 ≤ _
    omega
  simp only [UnpackedFloat.pack, hbias, hbits, if_neg hfits]
  split
  · next hlog =>
    have hm : 2 ^ 52 ≤ m := by
      have := Nat.log2_self_le hpos.ne'
      rwa [show m.log2 = 52 by omega] at this
    exact unpack_packComponents_full s hpos hm hlt hlow hhigh
  · -- fewer digits stand under the least exponent only
    next hlog =>
    have hm : m < 2 ^ 52 := by
      by_contra hge
      exact hlog (by rw [log2_of_full (by omega) hlt])
    obtain rfl : e = -1074 := by omega
    exact unpack_packComponents_short s hpos hm

/-- What fits into a double is the same after packing and unpacking. -/
theorem unpack_pack {u : UnpackedFloat} (h : Canonical u) : (Float.Model.pack u).unpack = u := by
  cases h with
  | notANumber => rfl
  | infinity s => cases s <;> rfl
  | zero s => cases s <;> rfl
  | finite s hpos hsettled hhigh => exact unpack_pack_finite s hpos hsettled hhigh

/-- An exponent that is too high gives an infinity. -/
theorem unpack_pack_of_high (s : Sign) {m : Nat} {e : Int} (hpos : 0 < m) (hhigh : 971 < e) :
    (Float.Model.pack (.finite s m e hpos)).unpack = .infinity s := by
  have hfits : 2 ^ Format.binary64.exponentBits
      ≤ (e + Format.binary64.exponentBias
        + Format.binary64.mantissaBitsWithoutImplicit).toNat + 1 := by
    show 2 ^ 11 ≤ (e + 1023 + 52).toNat + 1
    omega
  show UnpackedFloat.unpack _ (UnpackedFloat.pack _ _) = _
  simp only [UnpackedFloat.pack, if_pos hfits]
  cases s <;> rfl

/-- A negated double stands for the negated number. -/
theorem value?_neg (x : Float) : value? (-x) = (value? x).map (-·) := by
  have hcanonical := canonical x
  show exactValue? (Float.Model.pack x.toModel.unpack.neg).unpack = _
  unfold value?
  generalize x.toModel.unpack = u at hcanonical
  cases hcanonical with
  | notANumber => rfl
  | infinity s => cases s <;> rfl
  | zero s => cases s <;> rfl
  | @finite s m e hpos hsettled hhigh =>
    rw [UnpackedFloat.neg, unpack_pack (.finite _ hpos hsettled hhigh)]
    cases s
    · show some ((m : ℚ) * 2 ^ e) = some (-(((-(m : Int) : Int) : ℚ) * 2 ^ e))
      rw [Int.cast_neg, neg_mul, neg_neg, Int.cast_natCast]
    · show some (((-(m : Int) : Int) : ℚ) * 2 ^ e) = some (-((m : ℚ) * 2 ^ e))
      rw [Int.cast_neg, neg_mul, Int.cast_natCast]

theorem isFinite_neg (x : Float) : isFinite (-x) = isFinite x := by
  rw [Bool.eq_iff_iff, isFinite_iff, isFinite_iff, value?_neg]
  simp

/-! ### Order -/

section Order
variable {m n : Nat} {e f : Int}

/-- The number of a mantissa and an exponent grows with the exponent first. -/
theorem magnitude_lt_of_exponent_lt (hm : Settled m e) (hn : Settled n f) (h : e < f) :
    (m : ℚ) * 2 ^ e < n * 2 ^ f := by
  have hfull : 2 ^ 52 ≤ n := hn.full.resolve_right (by have := hm.low; omega)
  have hpow : (2 : ℚ) ^ (e + 1) ≤ 2 ^ f := zpow_le_zpow_right₀ (by norm_num) (by omega)
  have hm' : (m : ℚ) < 2 ^ 53 := by exact_mod_cast hm.lt
  have hn' : (2 : ℚ) ^ 52 ≤ n := by exact_mod_cast hfull
  have hpos : (0 : ℚ) < 2 ^ e := by positivity
  calc (m : ℚ) * 2 ^ e < 2 ^ 53 * 2 ^ e := mul_lt_mul_of_pos_right hm' hpos
    _ = 2 ^ 52 * 2 ^ (e + 1) := by rw [zpow_add₀ two_ne_zero]; ring
    _ ≤ n * 2 ^ f := mul_le_mul hn' hpow (by positivity) (by positivity)

/-- Mantissas and exponents are ordered as their numbers are. -/
theorem compare_magnitude (hm : Settled m e) (hn : Settled n f) :
    (compare e f).then (compare m n) = compare ((m : ℚ) * 2 ^ e) (n * 2 ^ f) := by
  rcases lt_trichotomy e f with h | rfl | h
  · rw [compare_lt_iff_lt.2 h, compare_lt_iff_lt.2 (magnitude_lt_of_exponent_lt hm hn h)]
    rfl
  · have hpos : (0 : ℚ) < 2 ^ e := by positivity
    rw [compare_eq_iff_eq.2 rfl]
    show compare m n = _
    rcases lt_trichotomy m n with h | rfl | h
    · rw [compare_lt_iff_lt.2 h, compare_lt_iff_lt.2]
      exact mul_lt_mul_of_pos_right (by exact_mod_cast h) hpos
    · rw [compare_eq_iff_eq.2 rfl, compare_eq_iff_eq.2 rfl]
    · rw [compare_gt_iff_gt.2 h, compare_gt_iff_gt.2]
      exact mul_lt_mul_of_pos_right (by exact_mod_cast h) hpos
  · rw [compare_gt_iff_gt.2 h, compare_gt_iff_gt.2 (magnitude_lt_of_exponent_lt hn hm h)]
    rfl

end Order

theorem compare_neg (a b : ℚ) : compare (-a) (-b) = (compare a b).swap := by
  rcases lt_trichotomy a b with h | rfl | h
  · rw [compare_lt_iff_lt.2 h, compare_gt_iff_gt.2 (neg_lt_neg h)]
    rfl
  · rw [compare_eq_iff_eq.2 rfl, compare_eq_iff_eq.2 rfl]
    rfl
  · rw [compare_gt_iff_gt.2 h, compare_lt_iff_lt.2 (neg_lt_neg h)]
    rfl

/-- Doubles are compared as their numbers. -/
theorem compare_of_exactValue {u v : UnpackedFloat} {p q : ℚ} (hu : Canonical u)
    (hv : Canonical v) (hp : exactValue? u = some p) (hq : exactValue? v = some q) :
    UnpackedFloat.compare u v = some (compare p q) := by
  have hpos : ∀ {m : Nat} (e : Int), 0 < m → (0 : ℚ) < m * 2 ^ e := fun e hm =>
    mul_pos (by exact_mod_cast hm) (by positivity)
  have hneg : ∀ {m : Nat} (e : Int), 0 < m → ((Sign.negative.apply m : Int) : ℚ) * 2 ^ e < 0 := by
    intro m e hm
    rw [Sign.apply, Int.cast_neg, neg_mul, neg_neg_iff_pos]
    exact hpos e hm
  -- a sign decides alone unless both numbers have the same
  cases hu with
  | notANumber => cases hp
  | infinity s => cases hp
  | zero s =>
    cases hp
    cases hv with
    | notANumber => cases hq
    | infinity t => cases hq
    | zero t =>
      cases hq
      rfl
    | finite t hn hsettled hhigh =>
      cases hq
      cases t
      · exact congrArg some (compare_gt_iff_gt.2 (hneg _ hn)).symm
      · exact congrArg some (compare_lt_iff_lt.2 (hpos _ hn)).symm
  | @finite s m e hm hsettled hhigh =>
    cases hp
    cases hv with
    | notANumber => cases hq
    | infinity t => cases hq
    | zero t =>
      cases hq
      cases s
      · exact congrArg some (compare_lt_iff_lt.2 (hneg _ hm)).symm
      · exact congrArg some (compare_gt_iff_gt.2 (hpos _ hm)).symm
    | @finite t n f hn hsettled' hhigh' =>
      cases hq
      cases s <;> cases t
      · -- of two negative numbers the one with the greater magnitude comes first
        show some ((compare e f).then (compare m n)).swap = _
        rw [compare_magnitude hsettled hsettled', Sign.apply, Sign.apply, Int.cast_neg,
          Int.cast_neg, neg_mul, neg_mul, compare_neg]
        rfl
      · exact congrArg some (compare_lt_iff_lt.2 ((hneg _ hm).trans (hpos _ hn))).symm
      · exact congrArg some (compare_gt_iff_gt.2 ((hneg _ hn).trans (hpos _ hm))).symm
      · exact congrArg some (compare_magnitude hsettled hsettled')

theorem lt_iff_compare {x y : Float} :
    x < y ↔ UnpackedFloat.compare x.toModel.unpack y.toModel.unpack = some .lt := by
  show decide (x.toModel < y.toModel) = true ↔ _
  rw [decide_eq_true_iff]
  exact beq_iff_eq

theorem beq_iff_compare {x y : Float} :
    x == y ↔ UnpackedFloat.compare x.toModel.unpack y.toModel.unpack = some .eq := by
  show (UnpackedFloat.compare x.toModel.unpack y.toModel.unpack == some .eq) = true ↔ _
  exact beq_iff_eq

/-- Finite doubles are ordered as their numbers. -/
theorem orderDoubles?_of_value {x y : Float} {p q : ℚ} (hp : value? x = some p)
    (hq : value? y = some q) : orderDoubles? x y = some (compare p q) := by
  have hcompare := compare_of_exactValue (canonical x) (canonical y) hp hq
  have hlt : x < y ↔ p < q := by
    rw [lt_iff_compare, hcompare, Option.some_inj, compare_lt_iff_lt]
  have heq : x == y ↔ p = q := by
    rw [beq_iff_compare, hcompare, Option.some_inj, compare_eq_iff_eq]
  have hgt : y < x ↔ q < p := by
    rw [lt_iff_compare, compare_of_exactValue (canonical y) (canonical x) hq hp, Option.some_inj,
      compare_lt_iff_lt]
  unfold orderDoubles?
  simp only [hlt, hgt, heq]
  rcases lt_trichotomy p q with h | h | h
  · rw [if_pos h, compare_lt_iff_lt.2 h]
  · rw [if_neg h.not_lt, if_pos h, compare_eq_iff_eq.2 h]
  · rw [if_neg h.not_gt, if_neg h.ne', if_pos h, compare_gt_iff_gt.2 h]

end MotifQuery.Number
