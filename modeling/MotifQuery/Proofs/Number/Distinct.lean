import MotifQuery.Proofs.Number.Shortest

/-!
# `MotifQuery.Proofs.Number.Distinct`: different doubles have different decimals

The intervals of the positive doubles stand in a row: where one ends the next begins
(`upper_eq_lower_succ`), and of two neighbours at most one owns the end between them, since
its significand is even where that of the other is odd. So no number lies in two intervals
(`eq_of_contains`). The shortest decimal of a double lies in its interval
(`contains_shortest`), so the decimal, with the sign, tells the double
(`eq_of_sign_of_decimal`).
-/

set_option autoImplicit false

namespace MotifQuery.Number

/-! ### Decimals -/

/-- The number that a decimal stands for. -/
def Decimal.value (d : Decimal) : ℚ :=
  d.digits * 10 ^ d.exponent

theorem Decimal.value_normal (d : Decimal) (fuel : Nat) : (d.normal fuel).value = d.value := by
  induction fuel generalizing d with
  | zero => rfl
  | succ fuel ih =>
    unfold normal
    split
    · next hzero =>
      have hdigits : ((d.digits / 10 : ℕ) : ℚ) * 10 = d.digits := by
        exact_mod_cast Nat.div_mul_cancel (Nat.dvd_of_mod_eq_zero hzero.1)
      rw [ih, value, value, zpow_add_one₀ (by norm_num), ← hdigits]
      ring
    · rfl

/-! ### Intervals -/

namespace RoundingInterval

variable {i : RoundingInterval} {bits other : Nat} {x : ℚ}

/-- The lower end. -/
def lower (i : RoundingInterval) : ℚ :=
  i.low * 2 ^ i.scale

/-- The upper end. -/
def upper (i : RoundingInterval) : ℚ :=
  i.high * 2 ^ i.scale

/-- The number is in the interval, the ends included where the interval is closed. -/
structure Contains (i : RoundingInterval) (x : ℚ) : Prop where
  lower_le : i.lower ≤ x
  le_upper : x ≤ i.upper
  inside : i.closed = false → i.lower < x ∧ x < i.upper

/-- A grid point is in the interval. -/
theorem contains_of_inside {power : Int} {c : Nat}
    (h : i.Inside (commonScale i.scale power).1 (commonScale i.scale power).2 c = true) :
    i.Contains (c * 10 ^ power) := by
  obtain ⟨k, hk, hleft, hright⟩ := commonScale_eq i.scale power
  generalize commonScale i.scale power = scales at h hleft hright
  obtain ⟨left, right⟩ := scales
  dsimp only at h hleft hright
  -- the test compares natural numbers, each a number here times one scale
  have hpoint : (c * right : ℕ) = k * ((c : ℚ) * 10 ^ power) := by
    push_cast
    rw [hright]
    ring
  have hlow : (i.low * left : ℕ) = k * i.lower := by
    push_cast
    rw [hleft, lower]
    ring
  have hhigh : (i.high * left : ℕ) = k * i.upper := by
    push_cast
    rw [hleft, upper]
    ring
  have hle : ∀ {m n : Nat} {p q : ℚ}, (m : ℚ) = k * p → (n : ℚ) = k * q → m ≤ n → p ≤ q := by
    intro m n p q hp hq hmn
    rw [← Nat.cast_le (α := ℚ), hp, hq] at hmn
    exact le_of_mul_le_mul_left hmn hk
  have hlt : ∀ {m n : Nat} {p q : ℚ}, (m : ℚ) = k * p → (n : ℚ) = k * q → m < n → p < q := by
    intro m n p q hp hq hmn
    rw [← Nat.cast_lt (α := ℚ), hp, hq] at hmn
    exact lt_of_mul_lt_mul_left hmn hk.le
  unfold Inside at h
  split at h
  · next hclosed =>
    rw [Bool.and_eq_true, decide_eq_true_eq, decide_eq_true_eq] at h
    exact ⟨hle hlow hpoint h.1, hle hpoint hhigh h.2, by simp [hclosed]⟩
  · rw [Bool.and_eq_true, decide_eq_true_eq, decide_eq_true_eq] at h
    have hstrict := And.intro (hlt hlow hpoint h.1) (hlt hpoint hhigh h.2)
    exact ⟨hstrict.1.le, hstrict.2.le, fun _ => hstrict⟩

theorem contains_of_gridPoint? {power : Int} {c : Nat} (h : i.gridPoint? power = some c) :
    i.Contains (c * 10 ^ power) := by
  refine contains_of_inside ?_
  rw [gridPoint?_eq] at h
  generalize commonScale i.scale power = scales at h ⊢
  obtain ⟨left, right⟩ := scales
  dsimp only at h ⊢
  split at h
  · next hbelow habove =>
    split at h
    · exact Option.some.inj h ▸ hbelow
    · split at h
      · exact Option.some.inj h ▸ habove
      · rw [← Option.some.inj h]
        split
        · exact hbelow
        · exact habove
  · next hbelow _ => exact Option.some.inj h ▸ hbelow
  · next habove => exact Option.some.inj h ▸ habove
  · cases h

/-! ### Neighbours -/

/-- The exponent field and the fraction of the next double. -/
theorem parts_succ (bits : Nat) :
    ((bits + 1) / 2 ^ 52 = bits / 2 ^ 52 ∧ (bits + 1) % 2 ^ 52 = bits % 2 ^ 52 + 1) ∨
      ((bits + 1) / 2 ^ 52 = bits / 2 ^ 52 + 1 ∧ (bits + 1) % 2 ^ 52 = 0 ∧
        bits % 2 ^ 52 = 2 ^ 52 - 1) := by
  omega

/-- The next interval begins where one ends, in units of the one or of twice that size, and of
the two one is open. -/
theorem ofBits_succ (hbits : bits + 1 < 2 ^ 63) :
    (((ofBits (bits + 1)).scale = (ofBits bits).scale ∧
          (ofBits bits).high = (ofBits (bits + 1)).low) ∨
        ((ofBits (bits + 1)).scale = (ofBits bits).scale + 1 ∧
          (ofBits bits).high = (ofBits (bits + 1)).low * 2)) ∧
      ((ofBits bits).closed = true → (ofBits (bits + 1)).closed = false) := by
  have hfield : bits / 2 ^ 52 % 2 ^ 11 = bits / 2 ^ 52 := Nat.mod_eq_of_lt (by omega)
  have hfield' : (bits + 1) / 2 ^ 52 % 2 ^ 11 = (bits + 1) / 2 ^ 52 := Nat.mod_eq_of_lt (by omega)
  unfold ofBits
  simp only [Nat.pow_eq, hfield, hfield', decide_eq_true_eq, decide_eq_false_iff_not]
  rcases parts_succ bits with ⟨hq, hr⟩ | ⟨hq, hr, hlast⟩
  · rw [hq, hr, if_neg (show ¬ (bits % 2 ^ 52 + 1 = 0 ∧ 1 < bits / 2 ^ 52) by omega)]
    refine ⟨.inl ⟨rfl, ?_⟩, ?_⟩ <;> split <;> omega
  · rw [hq, hr, hlast, if_neg (Nat.succ_ne_zero _), if_neg (Nat.succ_ne_zero _)]
    rcases Nat.eq_zero_or_pos (bits / 2 ^ 52) with hzero | hpos
    · rw [hzero]
      exact ⟨.inl ⟨rfl, rfl⟩, fun hclosed => absurd hclosed (by norm_num)⟩
    · -- the significand starts over, and the scale is one up
      rw [if_neg hpos.ne', if_neg hpos.ne', if_pos ⟨rfl, by omega⟩]
      exact ⟨.inr ⟨by push_cast; ring, rfl⟩, fun hclosed => absurd hclosed (by norm_num)⟩

/-- The interval of a double ends where that of the next begins. -/
theorem upper_eq_lower_succ (hbits : bits + 1 < 2 ^ 63) :
    (ofBits bits).upper = (ofBits (bits + 1)).lower := by
  unfold upper lower
  rcases (ofBits_succ hbits).1 with ⟨hscale, hhigh⟩ | ⟨hscale, hhigh⟩
  · rw [hscale, hhigh]
  · rw [hscale, hhigh, zpow_add_one₀ two_ne_zero]
    push_cast
    ring

theorem lower_lt_upper (hpos : 0 < bits) (hbits : bits < 2 ^ 63) :
    (ofBits bits).lower < (ofBits bits).upper := by
  obtain ⟨-, hle, hhigh, -⟩ := ofBits_bounds hpos hbits
  refine mul_lt_mul_of_pos_right ?_ (by positivity)
  exact_mod_cast (by omega : (ofBits bits).low < (ofBits bits).high)

/-- An interval ends before a later one begins, or where it begins. -/
theorem upper_le_lower (hpos : 0 < bits) (hlt : bits < other) (hother : other < 2 ^ 63) :
    (ofBits bits).upper ≤ (ofBits other).lower := by
  induction other, hlt using Nat.le_induction with
  | base => exact (upper_eq_lower_succ hother).le
  | succ n hn ih =>
    calc (ofBits bits).upper ≤ (ofBits n).lower := ih (by omega)
      _ ≤ (ofBits n).upper := (lower_lt_upper (by omega) (by omega)).le
      _ = (ofBits (n + 1)).lower := upper_eq_lower_succ hother

/-- A number is in no two intervals. -/
theorem not_contains_of_lt (hpos : 0 < bits) (hlt : bits < other) (hother : other < 2 ^ 63)
    (h : (ofBits bits).Contains x) : ¬ (ofBits other).Contains x := by
  intro h'
  have hends := upper_le_lower hpos hlt hother
  -- the number is the common end of the two, so both own it
  have hclosed : (ofBits bits).closed = true := by
    by_contra hopen
    have := (h.inside (Bool.eq_false_iff.2 hopen)).2
    have := h'.lower_le
    linarith
  have hclosed' : (ofBits other).closed = true := by
    by_contra hopen
    have := (h'.inside (Bool.eq_false_iff.2 hopen)).1
    have := h.le_upper
    linarith
  rcases Nat.eq_or_lt_of_le hlt with rfl | hfar
  · rw [(ofBits_succ hother).2 hclosed] at hclosed'
    cases hclosed'
  · have hnext := upper_le_lower (Nat.succ_pos bits) hfar hother
    have hbetween := lower_lt_upper (Nat.succ_pos bits) (hfar.trans hother)
    have hbegin := @upper_eq_lower_succ bits (by omega)
    have := h.le_upper
    have := h'.lower_le
    linarith

theorem eq_of_contains (hpos : 0 < bits) (hpos' : 0 < other) (hbits : bits < 2 ^ 63)
    (hother : other < 2 ^ 63) (h : (ofBits bits).Contains x) (h' : (ofBits other).Contains x) :
    bits = other := by
  rcases lt_trichotomy bits other with hlt | heq | hlt
  · exact absurd h' (not_contains_of_lt hpos hlt hother h)
  · exact heq
  · exact absurd h (not_contains_of_lt hpos' hlt hbits h')

end RoundingInterval

/-! ### Decimals of doubles -/

/-- The shortest decimal of a double lies in its interval. -/
theorem contains_shortest {bits : Nat} (hpos : 0 < bits) (hbits : bits < 2 ^ 63) :
    (RoundingInterval.ofBits bits).Contains (shortest bits).value := by
  obtain ⟨d, hpoint, hshortest⟩ := exists_gridPoint?_shortest hpos hbits
  rw [hshortest, Decimal.value_normal]
  exact RoundingInterval.contains_of_gridPoint? hpoint

/-- The decimal of the double with these bits; zero is written with no digits of its own. -/
def decimalOf (bits : Nat) : ℚ :=
  if bits = 0 then 0 else (shortest bits).value

theorem decimalOf_pos {bits : Nat} (hpos : 0 < bits) (hbits : bits < 2 ^ 63) :
    0 < decimalOf bits := by
  have hdigits := digits_shortest_pos hpos hbits
  rw [decimalOf, if_neg hpos.ne', Decimal.value]
  positivity

/-- The decimal tells the bits. -/
theorem eq_of_decimalOf_eq {bits other : Nat} (hbits : bits < 2 ^ 63) (hother : other < 2 ^ 63)
    (h : decimalOf bits = decimalOf other) : bits = other := by
  rcases Nat.eq_zero_or_pos bits with rfl | hpos
  · rcases Nat.eq_zero_or_pos other with rfl | hpos'
    · rfl
    · exact absurd h (decimalOf_pos hpos' hother).ne
  rcases Nat.eq_zero_or_pos other with rfl | hpos'
  · exact absurd h (decimalOf_pos hpos hbits).ne'
  · rw [decimalOf, decimalOf, if_neg hpos.ne', if_neg hpos'.ne'] at h
    exact RoundingInterval.eq_of_contains hpos hpos' hbits hother (contains_shortest hpos hbits)
      (h ▸ contains_shortest hpos' hother)

/-! ### Doubles and their bits -/

/-- The bits of a double after its sign bit. -/
def magnitudeBits (x : Float) : Nat :=
  x.toBits.toNat % 2 ^ 63

/-- The sign bit of a double. -/
def signBit (x : Float) : Bool :=
  decide (2 ^ 63 ≤ x.toBits.toNat)

theorem magnitudeBits_lt (x : Float) : magnitudeBits x < 2 ^ 63 :=
  Nat.mod_lt _ (by norm_num)

theorem toBits_inj {x y : Float} (h : x.toBits = y.toBits) : x = y := by
  obtain ⟨⟨xbits, hx⟩⟩ := x
  obtain ⟨⟨ybits, hy⟩⟩ := y
  obtain rfl : xbits = ybits := h
  rfl

/-- A double is told by its sign and its decimal. -/
theorem eq_of_sign_of_decimal {x y : Float} (hsign : signBit x = signBit y)
    (h : decimalOf (magnitudeBits x) = decimalOf (magnitudeBits y)) : x = y := by
  have hmagnitude := eq_of_decimalOf_eq (magnitudeBits_lt x) (magnitudeBits_lt y) h
  have hx := x.toBits.toNat_lt
  have hy := y.toBits.toNat_lt
  refine toBits_inj (UInt64.toNat_inj.1 ?_)
  rw [signBit, signBit, decide_eq_decide] at hsign
  unfold magnitudeBits at hmagnitude
  omega

end MotifQuery.Number
