import Mathlib.Algebra.Order.Field.Power
import Mathlib.Tactic.Linarith
import Mathlib.Tactic.Positivity
import Mathlib.Tactic.Ring
import MotifQuery.Number.Shortest

/-!
# `MotifQuery.Proofs.Number.Shortest`: the shortest decimal of a double has digits

The grids are walked from coarse to fine, and the last of them is finer than the interval of
any double, so the walk ends at a grid point (`gridPoint?_firstPoint`) and the decimal of a
positive double is not zero (`digits_shortest_pos`). The walk starts at the decimal place of
the double, which is estimated from its binary place; the estimate is never too high.
-/

set_option autoImplicit false

namespace MotifQuery.Number

/-! ### The common scale -/

/-- A power with the exponent split by its sign. -/
theorem pow_toNat_eq {b : ℚ} (hb : b ≠ 0) (s : Int) :
    b ^ s.toNat = b ^ (-s).toNat * b ^ s := by
  rcases le_total 0 s with hs | hs
  · have hneg : (-s).toNat = 0 := by omega
    rw [hneg, pow_zero, one_mul, ← zpow_natCast, Int.toNat_of_nonneg hs]
  · have hpos : s.toNat = 0 := by omega
    have hneg : ((-s).toNat : Int) = -s := Int.toNat_of_nonneg (by omega)
    rw [hpos, pow_zero, ← zpow_natCast, hneg, ← zpow_add₀ hb, neg_add_cancel, zpow_zero]

/-- The common scale multiplies both powers by one number. -/
theorem commonScale_eq (scale power : Int) :
    ∃ k : ℚ, 0 < k ∧ ((commonScale scale power).1 : ℚ) = k * 2 ^ scale ∧
      ((commonScale scale power).2 : ℚ) = k * 10 ^ power := by
  refine ⟨2 ^ (-scale).toNat * 10 ^ (-power).toNat, by positivity, ?_, ?_⟩
  · show ((2 ^ scale.toNat * 10 ^ (-power).toNat : ℕ) : ℚ) = _
    push_cast
    rw [pow_toNat_eq two_ne_zero scale]
    ring
  · show ((2 ^ (-scale).toNat * 10 ^ power.toNat : ℕ) : ℚ) = _
    push_cast
    rw [pow_toNat_eq (by norm_num) power]
    ring

theorem commonScale_pos (scale power : Int) :
    0 < (commonScale scale power).1 ∧ 0 < (commonScale scale power).2 := by
  show 0 < 2 ^ scale.toNat * 10 ^ (-power).toNat ∧ 0 < 2 ^ (-scale).toNat * 10 ^ power.toNat
  constructor <;> positivity

/-! ### Grid points -/

namespace RoundingInterval

variable {i : RoundingInterval} {power : Int}

/-- Is the point of a grid in the interval, on the common scale? -/
def Inside (i : RoundingInterval) (left right c : Nat) : Bool :=
  if i.closed then i.low * left ≤ c * right && c * right ≤ i.high * left
  else i.low * left < c * right && c * right < i.high * left

theorem pos_of_inside (hlow : 0 < i.low) {left right c : Nat} (hleft : 0 < left)
    (h : i.Inside left right c = true) : 0 < c := by
  have hpos : 0 < i.low * left := Nat.mul_pos hlow hleft
  rcases Nat.eq_zero_or_pos c with rfl | hc
  · unfold Inside at h
    split at h <;> rw [Bool.and_eq_true, decide_eq_true_eq, Nat.zero_mul] at h <;> omega
  · exact hc

/-- A point strictly between the ends is in the interval. -/
theorem inside_of_lt {left right c : Nat} (hlow : i.low * left < c * right)
    (hhigh : c * right < i.high * left) : i.Inside left right c = true := by
  unfold Inside
  split <;> rw [Bool.and_eq_true, decide_eq_true_eq, decide_eq_true_eq]
  · exact ⟨hlow.le, hhigh.le⟩
  · exact ⟨hlow, hhigh⟩

/-- The grid point is one of the two around the number, and in the interval. -/
theorem gridPoint?_eq (i : RoundingInterval) (power : Int) :
    i.gridPoint? power =
      let (left, right) := commonScale i.scale power
      let below := i.value * left / right
      let rest := i.value * left % right
      match i.Inside left right below, i.Inside left right (below + 1) with
      | true, true =>
        if 2 * rest < right then some below
        else if right < 2 * rest then some (below + 1)
        else some (if below % 2 = 0 then below else below + 1)
      | true, false => some below
      | false, true => some (below + 1)
      | false, false => none :=
  rfl

/-- No point of a grid is zero. -/
theorem pos_of_gridPoint? (hlow : 0 < i.low) {c : Nat} (h : i.gridPoint? power = some c) :
    0 < c := by
  have hleft := (commonScale_pos i.scale power).1
  rw [gridPoint?_eq] at h
  dsimp only at h
  split at h
  · next hbelow _ =>
    have hpos := pos_of_inside hlow hleft hbelow
    split at h
    · exact Option.some.inj h ▸ hpos
    · split at h
      · exact Option.some.inj h ▸ Nat.succ_pos _
      · have hc := Option.some.inj h
        split at hc <;> omega
  · next hbelow _ => exact Option.some.inj h ▸ pos_of_inside hlow hleft hbelow
  · exact Option.some.inj h ▸ Nat.succ_pos _
  · cases h

/-- A grid with steps below half the interval has a point in it. -/
theorem isSome_gridPoint? (hlow : i.low ≤ i.value) (hhigh : i.value + 2 ≤ i.high)
    (hstep : (10 : ℚ) ^ power < 2 * 2 ^ i.scale) : (i.gridPoint? power).isSome = true := by
  obtain ⟨k, hk, hscale, hpower⟩ := commonScale_eq i.scale power
  have hright := (commonScale_pos i.scale power).2
  rw [gridPoint?_eq]
  generalize commonScale i.scale power = scales at hscale hpower hright ⊢
  obtain ⟨left, right⟩ := scales
  dsimp only at hscale hpower hright ⊢
  have hstep' : right < 2 * left := by
    rw [← Nat.cast_lt (α := ℚ), Nat.cast_mul, hscale, hpower, Nat.cast_ofNat,
      show 2 * (k * 2 ^ i.scale) = k * (2 * 2 ^ i.scale) by ring]
    exact mul_lt_mul_of_pos_left hstep hk
  have hdiv : right * (i.value * left / right) + i.value * left % right = i.value * left :=
    Nat.div_add_mod _ _
  have hmod : i.value * left % right < right := Nat.mod_lt _ hright
  -- the point above the number is less than a step away from it
  have habove : (i.value * left / right + 1) * right
      = right * (i.value * left / right) + right := by ring
  have hlow' : i.low * left ≤ i.value * left := Nat.mul_le_mul_right left hlow
  have hhigh' : (i.value + 2) * left ≤ i.high * left := Nat.mul_le_mul_right left hhigh
  have hin : i.Inside left right (i.value * left / right + 1) = true := by
    refine inside_of_lt ?_ ?_
    · omega
    · rw [Nat.add_mul] at hhigh'
      omega
  rw [hin]
  split
  · split
    · rfl
    · split <;> rfl
  · next heq => cases heq
  · rfl
  · next heq => cases heq

/-- A walk that comes by a fine enough grid ends at a point. -/
theorem gridPoint?_firstPoint {fuel : Nat}
    (h : ∃ n ≤ fuel, (i.gridPoint? (power - n)).isSome = true) :
    i.gridPoint? (i.firstPoint fuel power).exponent = some (i.firstPoint fuel power).digits := by
  induction fuel generalizing power with
  | zero =>
    obtain ⟨n, hn, hsome⟩ := h
    obtain rfl : n = 0 := by omega
    obtain ⟨c, hc⟩ := Option.isSome_iff_exists.1 hsome
    rw [Nat.cast_zero, sub_zero] at hc
    show i.gridPoint? power = some ((i.gridPoint? power).getD 0)
    rw [hc]
    rfl
  | succ fuel ih =>
    unfold firstPoint
    split
    · next c hc => exact hc
    · next hnone =>
      obtain ⟨n, hn, hsome⟩ := h
      cases n with
      | zero =>
        rw [Nat.cast_zero, sub_zero, hnone] at hsome
        cases hsome
      | succ n =>
        -- not on this grid, so on a finer one, by a power of ten nearer
        refine ih ⟨n, by omega, ?_⟩
        rw [show power - 1 - (n : Int) = power - (n + 1 : ℕ) by push_cast; ring]
        exact hsome

end RoundingInterval

/-! ### The decimal place -/

/-- The place is counted up only past powers that the number reaches. -/
theorem pow_decimalPlace_le {value : Nat} {scale : Int} (fuel : Nat) {k : Int}
    (h : (10 : ℚ) ^ (k - 1) ≤ value * 2 ^ scale) :
    (10 : ℚ) ^ (decimalPlace value scale fuel k - 1) ≤ value * 2 ^ scale := by
  induction fuel generalizing k with
  | zero => exact h
  | succ fuel ih =>
    unfold decimalPlace
    dsimp only
    split
    · exact h
    · next hreached =>
      refine ih ?_
      obtain ⟨c, hc, hscale, hpower⟩ := commonScale_eq scale k
      rw [not_lt, ← Nat.cast_le (α := ℚ), Nat.cast_mul, hscale, hpower,
        show (value : ℚ) * (c * 2 ^ scale) = c * (value * 2 ^ scale) by ring] at hreached
      rw [add_sub_cancel_right]
      exact le_of_mul_le_mul_left hreached hc

theorem ten_pow_le_two_pow {m n : Nat} (h : 10 * n ≤ 3 * m) : 10 ^ n ≤ 2 ^ m := by
  have hcube : (10 ^ n) ^ 3 ≤ (2 ^ m) ^ 3 :=
    calc (10 ^ n) ^ 3 = (10 ^ 3) ^ n := by rw [← pow_mul, ← pow_mul, Nat.mul_comm]
      _ ≤ (2 ^ 10) ^ n := Nat.pow_le_pow_left (by norm_num) n
      _ = 2 ^ (10 * n) := (pow_mul _ _ _).symm
      _ ≤ 2 ^ (3 * m) := Nat.pow_le_pow_right (by norm_num) h
      _ = (2 ^ m) ^ 3 := by rw [← pow_mul, Nat.mul_comm]
  exact (Nat.pow_le_pow_iff_left (by norm_num)).1 hcube

theorem two_pow_le_ten_pow {m n : Nat} (h : 25 * m ≤ 83 * n) : 2 ^ m ≤ 10 ^ n := by
  have hpower : (2 ^ m) ^ 25 ≤ (10 ^ n) ^ 25 :=
    calc (2 ^ m) ^ 25 = 2 ^ (25 * m) := by rw [← pow_mul, Nat.mul_comm]
      _ ≤ 2 ^ (83 * n) := Nat.pow_le_pow_right (by norm_num) h
      _ = (2 ^ 83) ^ n := pow_mul _ _ _
      _ ≤ (10 ^ 25) ^ n := Nat.pow_le_pow_left (by norm_num) n
      _ = (10 ^ n) ^ 25 := by rw [← pow_mul, ← pow_mul, Nat.mul_comm]
  exact (Nat.pow_le_pow_iff_left (by norm_num)).1 hpower

/-- The estimate of a decimal place from a binary place is not too high. -/
theorem pow_estimate_le {place : Int} (hlow : -1100 ≤ place) (hhigh : place ≤ 1100) :
    (10 : ℚ) ^ (place * 30103 / 100000 - 1 - 1) ≤ 2 ^ place := by
  generalize hk : place * 30103 / 100000 - 1 - 1 = k
  rcases le_total 0 k with hsign | hsign
  · obtain ⟨n, rfl⟩ := Int.eq_ofNat_of_zero_le hsign
    obtain ⟨m, rfl⟩ := Int.eq_ofNat_of_zero_le (show 0 ≤ place by omega)
    rw [zpow_natCast, zpow_natCast]
    exact_mod_cast ten_pow_le_two_pow (by omega)
  · obtain ⟨n, hn⟩ := Int.eq_ofNat_of_zero_le (show 0 ≤ -k by omega)
    obtain rfl : k = -(n : Int) := by omega
    rcases le_total 0 place with hplace | hplace
    · calc (10 : ℚ) ^ (-(n : Int)) ≤ 1 := zpow_le_one_of_nonpos₀ (by norm_num) hsign
        _ ≤ 2 ^ place := one_le_zpow₀ (by norm_num) hplace
    · obtain ⟨m, hm⟩ := Int.eq_ofNat_of_zero_le (show 0 ≤ -place by omega)
      obtain rfl : place = -(m : Int) := by omega
      rw [zpow_neg, zpow_neg, zpow_natCast, zpow_natCast]
      have hpow : (2 : ℚ) ^ m ≤ 10 ^ n := by exact_mod_cast two_pow_le_ten_pow (by omega)
      exact inv_anti₀ (by positivity) hpow

/-! ### The shortest decimal -/

theorem Decimal.digits_normal_pos {d : Decimal} (h : 0 < d.digits) (fuel : Nat) :
    0 < (d.normal fuel).digits := by
  induction fuel generalizing d with
  | zero => exact h
  | succ fuel ih =>
    unfold Decimal.normal
    split
    · next hzero =>
      refine ih ?_
      show 0 < d.digits / 10
      omega
    · exact h

/-- The parts of the interval of a positive double. -/
theorem RoundingInterval.ofBits_bounds {bits : Nat} (hpos : 0 < bits) (hbits : bits < 2 ^ 63) :
    0 < (RoundingInterval.ofBits bits).low ∧
      (RoundingInterval.ofBits bits).low ≤ (RoundingInterval.ofBits bits).value ∧
      (RoundingInterval.ofBits bits).value + 2 = (RoundingInterval.ofBits bits).high ∧
      (RoundingInterval.ofBits bits).value < 2 ^ 55 ∧
      -1076 ≤ (RoundingInterval.ofBits bits).scale ∧
      (RoundingInterval.ofBits bits).scale ≤ 970 := by
  unfold RoundingInterval.ofBits
  simp only [Nat.pow_eq]
  have hfield : bits / 2 ^ 52 % 2 ^ 11 = bits / 2 ^ 52 := by omega
  rw [hfield]
  refine ⟨?_, ?_, ?_, ?_, ?_, ?_⟩
  · split <;> split <;> omega
  · split <;> split <;> omega
  · trivial
  · split <;> omega
  · split <;> omega
  · split <;> omega

/-- The shortest decimal of a positive double is a point of its interval. -/
theorem exists_gridPoint?_shortest {bits : Nat} (hpos : 0 < bits) (hbits : bits < 2 ^ 63) :
    ∃ d : Decimal, (RoundingInterval.ofBits bits).gridPoint? d.exponent = some d.digits ∧
      shortest bits = d.normal 20 := by
  obtain ⟨hlow, hle, hhigh, hvalue, hscale, hscale'⟩ := RoundingInterval.ofBits_bounds hpos hbits
  unfold shortest
  generalize RoundingInterval.ofBits bits = i at *
  dsimp only
  refine ⟨_, RoundingInterval.gridPoint?_firstPoint ⟨17, le_rfl, ?_⟩, rfl⟩
  refine RoundingInterval.isSome_gridPoint? hle hhigh.le ?_
  have hv : i.value ≠ 0 := by omega
  have hlog : Nat.log2 i.value < 55 := (Nat.log2_lt hv).2 hvalue
  have hbinary : (2 : ℚ) ^ ((Nat.log2 i.value : Int) + i.scale) ≤ i.value * 2 ^ i.scale := by
    rw [zpow_add₀ two_ne_zero, zpow_natCast]
    refine mul_le_mul_of_nonneg_right ?_ (by positivity)
    exact_mod_cast Nat.log2_self_le hv
  have hestimate := pow_estimate_le (show -1100 ≤ (Nat.log2 i.value : Int) + i.scale by omega)
    (by omega)
  have hplace := pow_decimalPlace_le 5 (hestimate.trans hbinary)
  generalize decimalPlace i.value i.scale 5 _ = place at hplace ⊢
  -- seventeen digits on, a step is below the interval of the largest significand
  have hsteps : (10 : ℚ) ^ (place - 1) = 10 ^ (17 : ℕ) * 10 ^ (place - 1 - (17 : ℕ)) := by
    rw [← zpow_natCast, ← zpow_add₀ (by norm_num)]
    congr 1
    omega
  have hcast : (i.value : ℚ) < 2 ^ 55 := by exact_mod_cast hvalue
  have hscalePos : (0 : ℚ) < 2 ^ i.scale := by positivity
  have hnumber : (i.value : ℚ) * 2 ^ i.scale < 2 ^ 55 * 2 ^ i.scale :=
    mul_lt_mul_of_pos_right hcast hscalePos
  rw [hsteps] at hplace
  norm_num at hplace hnumber ⊢
  linarith

/-- The shortest decimal of a positive double is not zero. -/
theorem digits_shortest_pos {bits : Nat} (hpos : 0 < bits) (hbits : bits < 2 ^ 63) :
    0 < (shortest bits).digits := by
  obtain ⟨hlow, -⟩ := RoundingInterval.ofBits_bounds hpos hbits
  obtain ⟨d, hpoint, hshortest⟩ := exists_gridPoint?_shortest hpos hbits
  rw [hshortest]
  exact Decimal.digits_normal_pos (RoundingInterval.pos_of_gridPoint? hlow hpoint) 20

end MotifQuery.Number
