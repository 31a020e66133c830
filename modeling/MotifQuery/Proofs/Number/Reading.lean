import MotifQuery.Proofs.Number.Integer
import MotifQuery.Proofs.Number.Nearest

/-!
# `MotifQuery.Proofs.Number.Reading`: the doubles of runs of digits

A run of digits times a power of ten is read as the double next to the number that it
writes. No power of ten is formed beyond the range of doubles, and that changes nothing:
the double is finite exactly when the number is below `overflow` (`isFinite_nearestDouble`),
and a whole number of at most 64 binary digits is rounded to 53 (`value?_nearestDouble`).
-/

set_option autoImplicit false

namespace MotifQuery.Number

open Text

/-! ### Runs of digits -/

theorem digitValue_lt {c : Char} (h : isAsciiDigit c = true) : digitValue c < 10 := by
  rw [isAsciiDigit, Bool.and_eq_true, decide_eq_true_eq, decide_eq_true_eq] at h
  have hlast : c.toNat ≤ '9'.toNat := h.2
  have hnine : '9'.toNat = 57 := rfl
  unfold digitValue
  omega

theorem digitValue_pos {c : Char} (h : isAsciiDigit c = true) (hne : c ≠ '0') :
    0 < digitValue c := by
  rw [isAsciiDigit, Bool.and_eq_true, decide_eq_true_eq, decide_eq_true_eq] at h
  have hfirst : '0'.toNat ≤ c.toNat := h.1
  have hzero : '0'.toNat = 48 := rfl
  have hne : c.toNat ≠ 48 := fun heq => hne (Char.toNat_inj.1 heq)
  unfold digitValue
  omega

/-- The value of a run with digits read before it. -/
theorem foldl_digits (cs : List Char) (n : Nat) :
    cs.foldl (fun n c => 10 * n + digitValue c) n = n * 10 ^ cs.length + digitsValue cs := by
  induction cs generalizing n with
  | nil => simp [digitsValue]
  | cons c cs ih =>
    have hcons : digitsValue (c :: cs) = digitValue c * 10 ^ cs.length + digitsValue cs := by
      rw [digitsValue, List.foldl_cons, ih, mul_zero, zero_add]
    rw [List.foldl_cons, ih, hcons, List.length_cons, pow_succ]
    ring

theorem digitsValue_cons (c : Char) (cs : List Char) :
    digitsValue (c :: cs) = digitValue c * 10 ^ cs.length + digitsValue cs := by
  rw [digitsValue, List.foldl_cons, foldl_digits, mul_zero, zero_add]

theorem digitsValue_append (cs ds : List Char) :
    digitsValue (cs ++ ds) = digitsValue cs * 10 ^ ds.length + digitsValue ds := by
  rw [digitsValue, List.foldl_append, foldl_digits]
  rfl

theorem digitsValue_zeros (n : Nat) : digitsValue (List.replicate n '0') = 0 := by
  induction n with
  | zero => rfl
  | succ n ih =>
    rw [List.replicate_succ, digitsValue_cons, ih]
    show 0 * _ + 0 = 0
    rw [zero_mul]

theorem digitsValue_lt {cs : List Char} (h : ∀ c ∈ cs, isAsciiDigit c = true) :
    digitsValue cs < 10 ^ cs.length := by
  induction cs with
  | nil => decide
  | cons c cs ih =>
    rw [List.forall_mem_cons] at h
    have hc := digitValue_lt h.1
    have hcs := ih h.2
    rw [digitsValue_cons, List.length_cons, pow_succ]
    nlinarith

/-- A run that opens with no zero has the value that its length promises. -/
theorem pow_le_digitsValue {c : Char} (cs : List Char) (h : isAsciiDigit c = true)
    (hne : c ≠ '0') : 10 ^ cs.length ≤ digitsValue (c :: cs) := by
  rw [digitsValue_cons]
  exact (Nat.le_mul_of_pos_left _ (digitValue_pos h hne)).trans (Nat.le_add_right _ _)

/-- Zeros in front carry no value. -/
theorem digitsValue_dropWhile (cs : List Char) :
    digitsValue (cs.dropWhile (· == '0')) = digitsValue cs := by
  induction cs with
  | nil => rfl
  | cons c cs ih =>
    rw [List.dropWhile_cons]
    split
    · next hzero =>
      rw [ih, digitsValue_cons, beq_iff_eq.1 hzero]
      show _ = 0 * _ + _
      rw [zero_mul, zero_add]
    · rfl

/-! ### Their doubles -/

/-- Beyond the range of doubles nothing is finite. -/
theorem overflow_le_ten_pow {k : Int} (h : 400 ≤ k) : overflow ≤ 10 ^ k := by
  have hpow : (2 : ℚ) ^ 1024 ≤ 10 ^ 400 := by
    exact_mod_cast two_pow_le_ten_pow (m := 1024) (n := 400) (by decide)
  have hunit : (0 : ℚ) ≤ 2 ^ 970 := pow_nonneg two_pos.le 970
  calc overflow ≤ 2 ^ 1024 := sub_le_self _ hunit
    _ ≤ 10 ^ 400 := hpow
    _ = 10 ^ (400 : Int) := rfl
    _ ≤ 10 ^ k := zpow_le_zpow_right₀ (by norm_num) h

section
variable {ds cs : List Char} {c : Char} {e : Int}

/-- A run of zeros is zero. -/
theorem nearestDouble_of_zeros (h : ds.dropWhile (· == '0') = []) : nearestDouble ds e = 0.0 := by
  rw [nearestDouble, h]
  rfl

theorem nearestDouble_of_leading (h : ds.dropWhile (· == '0') = c :: cs) :
    nearestDouble ds e =
      if cs.length + 1 + e < -400 then 0.0
      else if 400 < cs.length + 1 + e then 1.0 / 0.0
      else if e < 0 then Float.ofScientific (digitsValue ds) true e.natAbs
      else Float.ofNat (digitsValue ds * 10 ^ e.natAbs) := by
  rw [nearestDouble, h, ← digitsValue_dropWhile ds, h, List.isEmpty_cons, List.length_cons]
  simp only [Bool.false_or, decide_eq_true_eq]
  rfl

/-- The digits after the zeros promise the size of the number. -/
theorem digitsValue_bounds (hds : ∀ c ∈ ds, isAsciiDigit c = true)
    (h : ds.dropWhile (· == '0') = c :: cs) :
    10 ^ cs.length ≤ digitsValue ds ∧ digitsValue ds < 10 ^ (cs.length + 1) := by
  have hrest : ∀ d ∈ c :: cs, isAsciiDigit d = true := fun d hd =>
    hds d ((List.dropWhile_suffix _).subset (h ▸ hd))
  have hhead := List.head?_dropWhile_not (· == '0') ds
  rw [h] at hhead
  rw [← digitsValue_dropWhile ds, h]
  exact ⟨pow_le_digitsValue cs (hrest c List.mem_cons_self) (beq_eq_false_iff_ne.1 hhead),
    digitsValue_lt hrest⟩

/-- A number whose digits all stand behind the point is in range. -/
theorem mul_ten_zpow_lt_overflow {n k : Nat} (hn : n < 10 ^ k) (h : k + e ≤ 0) :
    (n : ℚ) * 10 ^ e < overflow := by
  refine lt_overflow_of_le ?_
  calc (n : ℚ) * 10 ^ e ≤ 10 ^ (k : Int) * 10 ^ e := by
        refine mul_le_mul_of_nonneg_right ?_ (zpow_pos (by norm_num) e).le
        rw [zpow_natCast]
        exact_mod_cast hn.le
    _ = 10 ^ (k + e : Int) := (zpow_add₀ (by norm_num) _ _).symm
    _ ≤ 10 ^ (0 : Int) := zpow_le_zpow_right₀ (by norm_num) h
    _ ≤ 2 ^ 64 := by norm_num

/-- A number with more than 400 digits before the point is beyond the range. -/
theorem overflow_le_mul_ten_zpow {n k : Nat} (hn : 10 ^ k ≤ n) (h : 400 ≤ k + e) :
    overflow ≤ (n : ℚ) * 10 ^ e := by
  calc overflow ≤ 10 ^ (k + e : Int) := overflow_le_ten_pow h
    _ = 10 ^ (k : Int) * 10 ^ e := zpow_add₀ (by norm_num) _ _
    _ ≤ n * 10 ^ e := by
      refine mul_le_mul_of_nonneg_right ?_ (zpow_pos (by norm_num) e).le
      rw [zpow_natCast]
      exact_mod_cast hn

/-- The double of a run of digits is finite exactly when its number is in range. -/
theorem isFinite_nearestDouble (hds : ∀ c ∈ ds, isAsciiDigit c = true) :
    isFinite (nearestDouble ds e) = true ↔ (digitsValue ds : ℚ) * 10 ^ e < overflow := by
  have hzero : isFinite 0.0 = true := rfl
  have hinfinite : isFinite (1.0 / 0.0) = false := rfl
  cases h : ds.dropWhile (· == '0') with
  | nil =>
    rw [nearestDouble_of_zeros h, ← digitsValue_dropWhile ds, h]
    refine iff_of_true hzero ?_
    show ((0 : Nat) : ℚ) * 10 ^ e < overflow
    rw [Nat.cast_zero, zero_mul]
    exact lt_overflow_of_le (by positivity)
  | cons c cs =>
    obtain ⟨hlow, hhigh⟩ := digitsValue_bounds hds h
    have hpos : 0 < digitsValue ds := (Nat.pow_pos (by decide)).trans_le hlow
    rw [nearestDouble_of_leading h]
    -- far from the range on either side the exponent alone decides
    split
    · next hsmall => exact iff_of_true hzero (mul_ten_zpow_lt_overflow hhigh (by omega))
    · split
      · next hlarge =>
        exact iff_of_false (by rw [hinfinite]; decide)
          (not_lt.2 (overflow_le_mul_ten_zpow hlow (by omega)))
      · split
        · next hneg =>
          rw [(roundsTo_ofScientific hpos e.natAbs).isFinite_iff]
          obtain ⟨k, rfl⟩ : ∃ k : Nat, e = -(k : Int) := ⟨e.natAbs, by omega⟩
          rw [Int.natAbs_neg, Int.natAbs_natCast, zpow_neg, zpow_natCast, div_eq_mul_inv]
        · next hneg =>
          rw [(roundsTo_ofNat (Nat.mul_pos hpos (Nat.pow_pos (by decide)))).isFinite_iff]
          obtain ⟨k, rfl⟩ := Int.eq_ofNat_of_zero_le (not_lt.1 hneg)
          rw [Int.natAbs_natCast, zpow_natCast]
          push_cast
          exact Iff.rfl

/-- A whole number of at most 64 digits is rounded to 53. -/
theorem value?_nearestDouble (hds : ∀ c ∈ ds, isAsciiDigit c = true)
    (hle : digitsValue ds ≤ 2 ^ 64) :
    value? (nearestDouble ds 0) = some (nearestNat (digitsValue ds) : ℚ) := by
  cases h : ds.dropWhile (· == '0') with
  | nil =>
    rw [nearestDouble_of_zeros h, ← digitsValue_dropWhile ds, h]
    rfl
  | cons c cs =>
    obtain ⟨hlow, -⟩ := digitsValue_bounds hds h
    have hlength : cs.length < 20 := by
      refine (Nat.pow_lt_pow_iff_right (a := 10) (by decide)).1 ?_
      calc 10 ^ cs.length ≤ 2 ^ 64 := hlow.trans hle
        _ < 10 ^ 20 := by norm_num
    have hpos : 0 < digitsValue ds := (Nat.pow_pos (by decide)).trans_le hlow
    rw [nearestDouble_of_leading h, if_neg (by omega), if_neg (by omega), if_neg (by decide),
      Int.natAbs_zero, pow_zero, mul_one]
    exact (roundsTo_ofNat hpos).value?_of_nat (lt_overflow_of_le (by exact_mod_cast hle))

end

end MotifQuery.Number
