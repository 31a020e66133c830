import Mathlib.Data.Nat.Digits.Defs
import Mathlib.Order.Monotone.Basic
import Mathlib.Order.SuccPred.Archimedean
import MotifQuery.Proofs.Number.Integer
import MotifQuery.Proofs.Text.Split
import MotifQuery.Time.Calendar

/-!
# `MotifQuery.Proofs.Time.Calendar`: instants read back

Every number of days is that of the date the calendar gives for it, and this date exists
(`dateOfDay_spec`). So the text of an instant that the calendar reaches is read back as that
instant: `read?_text`.
-/

set_option autoImplicit false

namespace MotifQuery.Instant

open Text Number

/-! ### Dates -/

/-- The year of a day within 400 years; both are counted from nought. -/
def yearInEra (x : Int) : Int :=
  (x - x / 1460 + x / 36524 - x / 146096) / 365

/-- The first day of a year within 400 years. -/
def yearStart (y : Int) : Int :=
  365 * y + y / 4 - y / 100

/-- From day to day the years do not go back: of the days left out for leap years, each
400th takes one that stood for a century. -/
theorem yearInEra_mono {x y : Int} (h : x ≤ y) : yearInEra x ≤ yearInEra y := by
  refine monotone_int_of_le_succ (fun x => ?_) h
  have hcentury : x / 36524 ≤ (x + 1) / 36524 := by omega
  have hfourth : (x + 1) / 1460 ≤ x / 1460 + 1 := by omega
  have hera (x : Int) : x / 146096 = x / 36524 / 4 := by
    rw [Int.ediv_ediv_of_nonneg (by decide)]
    rfl
  refine Int.ediv_le_ediv (by decide) ?_
  rw [hera x, hera (x + 1)]
  generalize x / 36524 = b, (x + 1) / 36524 = b' at *
  omega

theorem yearInEra_yearStart : ∀ y : Fin 400, yearInEra (yearStart (y : Nat)) = (y : Nat) := by
  decide +kernel

theorem yearInEra_before_yearStart :
    ∀ y : Fin 399, yearInEra (yearStart ((y : Nat) + 1) - 1) = (y : Nat) := by
  decide +kernel

/-- A day lies between the first day of its year and that of the next one. -/
theorem yearStart_yearInEra {x : Int} (h0 : 0 ≤ x) (hx : x < 146097) :
    0 ≤ yearInEra x ∧ yearInEra x < 400 ∧ yearStart (yearInEra x) ≤ x ∧
      (yearInEra x < 399 → x < yearStart (yearInEra x + 1)) := by
  have hpos : 0 ≤ yearInEra x := by
    unfold yearInEra
    omega
  have hlt : yearInEra x < 400 := by
    unfold yearInEra
    omega
  obtain ⟨y, hy⟩ := Int.eq_ofNat_of_zero_le hpos
  rw [hy] at hlt ⊢
  -- a day outside these bounds would, years not going back, be in the year before or after
  refine ⟨by omega, hlt, ?_, fun hlast => ?_⟩
  · by_contra hbefore
    cases y with
    | zero => exact hbefore h0
    | succ y =>
      have hle : yearInEra x ≤ yearInEra (yearStart (y + 1) - 1) :=
        yearInEra_mono (by push_cast at hbefore; omega)
      have hyear := yearInEra_before_yearStart ⟨y, by omega⟩
      dsimp only at hyear
      omega
  · by_contra hafter
    have hle : yearInEra (yearStart (y + 1)) ≤ yearInEra x := yearInEra_mono (by omega)
    have hyear := yearInEra_yearStart ⟨y + 1, by omega⟩
    push_cast at hyear
    omega

/-- A month has this day. -/
structure IsDate (year : Int) (month day : Nat) : Prop where
  month_pos : 1 ≤ month
  month_le : month ≤ 12
  day_pos : 1 ≤ day
  day_le : day ≤ daysInMonth year month

/-- The month and the day of a day of a year that starts in March. -/
theorem month_of_day : ∀ n : Fin 366,
    let m := (5 * n.val + 2) / 153
    let month := if m < 10 then m + 3 else m - 9
    let day := n.val - (153 * m + 2) / 5 + 1
    m ≤ 11 ∧ (153 * m + 2) / 5 ≤ n.val ∧
      (day ≤ daysInMonth 1 month ∨ n.val = 365 ∧ month = 2 ∧ day = 29) := by
  decide +kernel

theorem daysInMonth_le (year : Int) (month : Nat) :
    daysInMonth 1 month ≤ daysInMonth year month := by
  unfold daysInMonth
  split
  · show 28 ≤ if isLeap year then 29 else 28
    split <;> omega
  all_goals exact Nat.le_refl _

/-- A year has at most 366 days, and the 366th day of one that starts in March is a leap
day. -/
theorem day_of_year {x : Int} (h0 : 0 ≤ x) (hx : x < 146097) :
    x - yearStart (yearInEra x) ≤ 365 ∧ (x - yearStart (yearInEra x) = 365 →
      ∀ era, isLeap (yearInEra x + 400 * era + 1) = true) := by
  obtain ⟨hpos, hlt, hstart, hnext⟩ := yearStart_yearInEra h0 hx
  generalize yearInEra x = y at *
  unfold yearStart at *
  have hfourth : (y + 1) / 4 = y / 4 ∨ (y + 1) / 4 = y / 4 + 1 ∧ (y + 1) % 4 = 0 := by omega
  have hcentury : (y + 1) / 100 = y / 100 ∧ (y + 1) % 100 ≠ 0 ∨
      (y + 1) / 100 = y / 100 + 1 ∧ (y + 1) % 400 % 100 = 0 := by omega
  have hleap : x - (365 * y + y / 4 - y / 100) = 365 →
      (y + 1) % 4 = 0 ∧ ((y + 1) % 100 ≠ 0 ∨ (y + 1) % 400 = 0) := by omega
  refine ⟨by omega, fun hlast era => ?_⟩
  obtain ⟨hfour, hcentury⟩ := hleap hlast
  have hfour' : (y + 400 * era + 1) % 4 = 0 := by omega
  have hcentury' : (y + 400 * era + 1) % 100 ≠ 0 ∨ (y + 400 * era + 1) % 400 = 0 := by omega
  unfold isLeap
  simpa [hfour'] using hcentury'

/-- The `k`-th day of a year that starts in March has a month and a day of the calendar, and
the number that they stand for. -/
theorem date_of_day {y era : Int} {k : Nat} (hy : 0 ≤ y ∧ y < 400) (hk : k ≤ 365)
    (hleap : k = 365 → isLeap (y + 400 * era + 1) = true) :
    let m := (5 * k + 2) / 153
    let month := if m < 10 then m + 3 else m - 9
    let day := k - (153 * m + 2) / 5 + 1
    let year := y + 400 * era + (if month ≤ 2 then 1 else 0)
    IsDate year month day ∧
      dayNumber year month day = yearStart y + k + 146097 * era - 719468 := by
  have hfourth : (y + 400 * era) / 4 = y / 4 + 100 * era := by omega
  have hcentury : (y + 400 * era) / 100 = y / 100 + 4 * era := by omega
  have hera : (y + 400 * era) / 400 = era := by omega
  obtain ⟨hm, hfirst, hday⟩ := month_of_day ⟨k, by omega⟩
  intro m month day year
  have hmonth : 1 ≤ month ∧ month ≤ 12 := by
    show 1 ≤ (if m < 10 then m + 3 else m - 9) ∧ (if m < 10 then m + 3 else m - 9) ≤ 12
    split <;> omega
  -- January and February belong to the year that began in the March before
  have hmarch : marchYear year month = y + 400 * era := by
    show (if month ≤ 2 then y + 400 * era + (if month ≤ 2 then 1 else 0) - 1
      else y + 400 * era + (if month ≤ 2 then 1 else 0)) = _
    split <;> omega
  have hback : ((month : Int) + 9) % 12 = m := by
    show (((if m < 10 then m + 3 else m - 9 : Nat) : Int) + 9) % 12 = m
    split <;> omega
  constructor
  · refine ⟨hmonth.1, hmonth.2, Nat.le_add_left 1 _, ?_⟩
    -- only the last of 366 days can be the 29th of February
    rcases hday with hday | ⟨hlast, htwo, hday⟩
    · exact hday.trans (daysInMonth_le year month)
    · have hfebruary : month = 2 := htwo
      have hyear : year = y + 400 * era + 1 := by
        show y + 400 * era + (if month ≤ 2 then 1 else 0) = _
        rw [if_pos (by omega)]
      rw [show day = 29 from hday, hyear, hfebruary]
      show 29 ≤ if isLeap (y + 400 * era + 1) then 29 else 28
      rw [hleap hlast]
      decide
  · show 365 * marchYear year month + marchYear year month / 4 - marchYear year month / 100
      + marchYear year month / 400 + ((153 * (((month : Int) + 9) % 12) + 2) / 5 + day - 1)
      - 719468 = _
    have hday : (day : Int) = k - (153 * m + 2) / 5 + 1 := by
      have hnat : day = k - (153 * m + 2) / 5 + 1 := rfl
      have hle : (153 * m + 2) / 5 ≤ k := hfirst
      omega
    rw [hmarch, hback, hfourth, hcentury, hera, hday]
    unfold yearStart
    omega

/-- The date of a day exists, and the day is that of its date. -/
theorem dateOfDay_spec (n : Int) :
    IsDate (dateOfDay n).1 (dateOfDay n).2.1 (dateOfDay n).2.2 ∧
      dayNumber (dateOfDay n).1 (dateOfDay n).2.1 (dateOfDay n).2.2 = n := by
  have h0 : 0 ≤ (n + 719468) % 146097 := by omega
  have hx : (n + 719468) % 146097 < 146097 := by omega
  obtain ⟨hpos, hlt, hstart, -⟩ := yearStart_yearInEra h0 hx
  obtain ⟨hlong, hleap⟩ := day_of_year h0 hx
  obtain ⟨k, hk⟩ := Int.eq_ofNat_of_zero_le (by omega :
    0 ≤ (n + 719468) % 146097 - yearStart (yearInEra ((n + 719468) % 146097)))
  have hdate : dateOfDay n =
      (let y := yearInEra ((n + 719468) % 146097)
       let inYear := (n + 719468) % 146097 - yearStart y
       let m := (5 * inYear + 2) / 153
       let month := if m < 10 then m + 3 else m - 9
       (y + 400 * ((n + 719468) / 146097) + (if month ≤ 2 then 1 else 0), month.toNat,
         (inYear - (153 * m + 2) / 5 + 1).toNat)) := rfl
  obtain ⟨hvalid, hnumber⟩ := @date_of_day _ ((n + 719468) / 146097) k ⟨hpos, hlt⟩
    (by omega) (fun h => hleap (by omega) _)
  dsimp only at hdate hvalid hnumber
  -- the same numbers as naturals, since a month and a day are naturals
  have hm : (5 * (k : Int) + 2) / 153 = ((5 * k + 2) / 153 : Nat) := by omega
  have hmonth : (if (5 * (k : Int) + 2) / 153 < 10 then (5 * (k : Int) + 2) / 153 + 3
      else (5 * (k : Int) + 2) / 153 - 9)
      = ((if (5 * k + 2) / 153 < 10 then (5 * k + 2) / 153 + 3 else (5 * k + 2) / 153 - 9 : Nat)
        : Int) := by
    split <;> split <;> omega
  rw [hk, hmonth, hm] at hdate
  have hday : ((k : Int) - (153 * ((5 * k + 2) / 153 : Nat) + 2) / 5 + 1).toNat
      = k - (153 * ((5 * k + 2) / 153) + 2) / 5 + 1 := by omega
  rw [hday, Int.toNat_natCast] at hdate
  generalize (if (5 * k + 2) / 153 < 10 then (5 * k + 2) / 153 + 3 else (5 * k + 2) / 153 - 9)
    = month at *
  have htwo : (month : Int) ≤ 2 ↔ month ≤ 2 := by omega
  simp only [htwo] at hdate
  rw [hdate]
  exact ⟨hvalid, hnumber.trans (by omega)⟩

/-! ### The years of the calendar -/

/-- The days before the March of a year. -/
def daysBefore (y : Int) : Int :=
  365 * y + y / 4 - y / 100 + y / 400

theorem daysBefore_add_le {y y' : Int} (h : y ≤ y') :
    daysBefore y + 365 * (y' - y) ≤ daysBefore y' := by
  have hmono : Monotone fun y : Int => y / 4 - y / 100 + y / 400 := by
    refine monotone_int_of_le_succ fun y => ?_
    have hfourth : y / 4 ≤ (y + 1) / 4 := by omega
    have hcentury (y : Int) : y / 100 = y / 4 / 25 := by
      rw [Int.ediv_ediv_of_nonneg (by decide)]
      rfl
    have hera (y : Int) : y / 400 = y / 4 / 25 / 4 := by
      rw [Int.ediv_ediv_of_nonneg (by decide), Int.ediv_ediv_of_nonneg (by decide)]
      rfl
    show y / 4 - y / 100 + y / 400 ≤ (y + 1) / 4 - (y + 1) / 100 + (y + 1) / 400
    rw [hera y, hera (y + 1), hcentury y, hcentury (y + 1)]
    generalize y / 4 = q, (y + 1) / 4 = q' at *
    omega
  have hle := hmono h
  dsimp only at hle
  unfold daysBefore
  omega

theorem daysInMonth_le_31 (year : Int) (month : Nat) : daysInMonth year month ≤ 31 := by
  unfold daysInMonth
  split
  · split <;> decide
  all_goals decide

section Years

variable {year : Int} {month day : Nat} (h : IsDate year month day)
include h

/-- January and February count to the year that started in March before. -/
theorem exists_dayNumber_eq : ∃ y inYear : Int,
    dayNumber year month day = daysBefore y + inYear - 719468 ∧
      (y = year - 1 ∧ 306 ≤ inYear ∧ inYear ≤ 367 ∨ y = year ∧ 0 ≤ inYear ∧ inYear ≤ 305) := by
  obtain ⟨hone, htwelve, hday, hlast⟩ := h
  have hday31 := hlast.trans (daysInMonth_le_31 year month)
  refine ⟨marchYear year month, (153 * (((month : Int) + 9) % 12) + 2) / 5 + day - 1, rfl, ?_⟩
  unfold marchYear
  split
  · exact .inl ⟨rfl, by omega, by omega⟩
  · exact .inr ⟨rfl, by omega, by omega⟩

theorem dayNumber_start_le {first : Int} (hyear : first ≤ year) :
    dayNumber first 1 1 ≤ dayNumber year month day := by
  obtain ⟨y, inYear, hnumber, hin⟩ := exists_dayNumber_eq h
  have hfirst : dayNumber first 1 1 = daysBefore (first - 1) + 306 - 719468 := rfl
  have hle := daysBefore_add_le (by omega : first - 1 ≤ y)
  omega

theorem dayNumber_lt_start {next : Int} (hyear : year < next) :
    dayNumber year month day < dayNumber next 1 1 := by
  obtain ⟨y, inYear, hnumber, hin⟩ := exists_dayNumber_eq h
  have hnext : dayNumber next 1 1 = daysBefore (next - 1) + 306 - 719468 := rfl
  have hle := daysBefore_add_le (by omega : y ≤ next - 1)
  omega

end Years

/-- The first instant of the first year. -/
def first : Instant :=
  ofDate (-maxYear) 1 1 0 0

/-- The calendar reaches the instant. -/
def InCalendar (t : Instant) : Prop :=
  first ≤ t ∧ t < limit

/-- There is no instant some days later where that lies beyond the last year. -/
theorem addDays?_eq_none_iff {t : Instant} {days : Nat} :
    t.addDays? days = none ↔ limit ≤ t + days * perDay * perSecond := by
  unfold addDays?
  dsimp only
  split
  · next hlimit => exact iff_of_false nofun (Int.not_le.2 hlimit)
  · next hlimit => exact iff_of_true rfl (Int.not_lt.1 hlimit)

theorem InCalendar.of_addDays? {t later : Instant} {days : Nat} (h : InCalendar t)
    (hlater : t.addDays? days = some later) : InCalendar later := by
  unfold addDays? at hlater
  dsimp only at hlater
  split at hlater
  · next hlimit =>
    cases hlater
    refine ⟨Int.le_trans h.1 (Int.le_add_of_nonneg_right ?_), hlimit⟩
    exact Int.mul_nonneg (Int.mul_nonneg (Int.natCast_nonneg days) (by decide)) (by decide)
  · cases hlater

theorem natAbs_year_le {t : Int} (h : InCalendar t) :
    ((dateOfDay (t / perSecond / perDay)).1.natAbs : Int) ≤ maxYear := by
  have hfirst : dayNumber (-maxYear) 1 1 * 86400000000000 ≤ t := by
    rw [← show first = dayNumber (-maxYear) 1 1 * 86400000000000 from by decide +kernel]
    exact h.1
  have hlimit : t < dayNumber (maxYear + 1) 1 1 * 86400000000000 := by
    rw [← show limit = dayNumber (maxYear + 1) 1 1 * 86400000000000 from by decide +kernel]
    exact h.2
  have hunits : t / perSecond / perDay = t / 86400000000000 := by
    unfold perSecond perDay
    omega
  obtain ⟨hdate, hnumber⟩ := dateOfDay_spec (t / perSecond / perDay)
  rw [hunits] at hdate hnumber ⊢
  generalize dateOfDay (t / 86400000000000) = d at *
  by_contra hyear
  -- the day of another year is outside the first and the last day of the calendar
  rcases (by omega : d.1 < -maxYear ∨ maxYear + 1 ≤ d.1) with hlow | hhigh
  · have := dayNumber_lt_start hdate hlow
    omega
  · have := dayNumber_start_le hdate hhigh
    omega

/-! ### Padded numbers -/

theorem isAsciiDigit_of_mem_padded {width n : Nat} {c : Char} (h : c ∈ padded width n) :
    isAsciiDigit c = true := by
  rcases List.mem_append.1 h with h | h
  · rw [List.eq_of_mem_replicate h]
    decide
  · exact isAsciiDigit_of_mem_natDigits h

theorem padded_ne_nil (width n : Nat) : padded width n ≠ [] :=
  List.append_ne_nil_of_right_ne_nil _ (natDigits_ne_nil n)

/-- Zeros before a number carry no value. -/
theorem readNat?_padded (width n : Nat) : readNat? (padded width n) = some n := by
  have hzeros : ∀ k ds, digitsValue (List.replicate k '0' ++ ds) = digitsValue ds := by
    intro k ds
    induction k with
    | zero => rfl
    | succ k ih => exact ih
  have hall : (padded width n).all isAsciiDigit = true :=
    List.all_eq_true.2 fun c hc => isAsciiDigit_of_mem_padded hc
  rw [readNat?, hall, List.isEmpty_eq_false_iff.2 (padded_ne_nil width n), padded, hzeros,
    digitsValue_natDigits]
  rfl

theorem length_padded {width n : Nat} (hwidth : 0 < width) (h : n < 10 ^ width) :
    (padded width n).length = width := by
  have hle : (natDigits n).length ≤ width := Nat.toDigits_length 10 n width hwidth h
  unfold padded
  rw [List.length_append, List.length_replicate]
  omega

/-! ### Reading the parts -/

variable {width n : Nat} {ds rest : List Char}

theorem isBlank_eq_false_of_isAsciiDigit {c : Char} (h : isAsciiDigit c = true) :
    isBlank c = false := by
  simp only [isAsciiDigit, Bool.and_eq_true, decide_eq_true_eq, Char.le_def, UInt32.le_iff_toNat_le]
    at h
  have hlow : 48 ≤ c.toNat := h.1
  have hhigh : c.toNat ≤ 57 := h.2
  simp only [isBlank, Bool.or_eq_false_iff, Bool.and_eq_false_iff, decide_eq_false_iff_not,
    beq_eq_false_iff_ne]
  omega

theorem trimStart_cons {c : Char} (h : isBlank c = false) (cs : List Char) :
    trimStart (c :: cs) = c :: cs :=
  List.dropWhile_cons_of_neg (by rw [h]; exact Bool.false_ne_true)

/-- The first of some digits. -/
theorem exists_cons_of_readNat? (h : readNat? ds = some n) :
    ∃ d ds', ds = d :: ds' ∧ isAsciiDigit d = true := by
  cases ds with
  | nil => cases h
  | cons d ds' =>
    refine ⟨d, ds', rfl, ?_⟩
    unfold readNat? at h
    split at h
    next hall => exact List.all_eq_true.1 (Bool.and_eq_true_iff.1 hall).2 d List.mem_cons_self
    next => cases h

theorem trimStart_digits (h : readNat? ds = some n) (rest : List Char) :
    trimStart (ds ++ rest) = ds ++ rest := by
  obtain ⟨d, ds', rfl, hd⟩ := exists_cons_of_readNat? h
  exact trimStart_cons (isBlank_eq_false_of_isAsciiDigit hd) _

/-- Digits are read up to the width, or to what is no digit. -/
theorem readNumber?_digits (h : readNat? ds = some n) (hlen : ds.length ≤ width)
    (hrest : ds.length = width ∨ ∀ c ∈ rest.head?, isAsciiDigit c = false) :
    readNumber? width (ds ++ rest) = some (n, rest) := by
  have hall : ∀ c ∈ ds, isAsciiDigit c = true := by
    unfold readNat? at h
    split at h
    next hall => exact List.all_eq_true.1 (Bool.and_eq_true_iff.1 hall).2
    next => cases h
  -- the run stops at the width, or at what follows
  have hend : ∀ c ∈ (rest.take (width - ds.length)).head?, isAsciiDigit c = false := by
    rcases hrest with hfull | hrest
    · rw [hfull, Nat.sub_self]
      exact fun c hc => absurd hc (Option.not_mem_none c)
    · intro c hc
      cases hk : width - ds.length with
      | zero => rw [hk] at hc; exact absurd hc (Option.not_mem_none c)
      | succ k =>
        rw [hk, List.head?_take, if_neg (Nat.succ_ne_zero k)] at hc
        exact hrest c hc
  have hdigits : ((ds ++ rest).take width).takeWhile isAsciiDigit = ds := by
    rw [List.take_append, List.take_of_length_le hlen, takeWhile_run hall hend]
  show (readNat? (((trimStart (ds ++ rest)).take width).takeWhile isAsciiDigit)).map
    (fun n => (n, (trimStart (ds ++ rest)).drop
      (((trimStart (ds ++ rest)).take width).takeWhile isAsciiDigit).length)) = _
  rw [trimStart_digits h, hdigits, h, Option.map_some, List.drop_left]

theorem readNumber?_two (h : n < 100) (rest : List Char) :
    readNumber? 2 (padded 2 n ++ rest) = some (n, rest) := by
  have hlen : (padded 2 n).length = 2 := length_padded (by decide) h
  exact readNumber?_digits (readNat?_padded 2 n) hlen.le (.inl hlen)

theorem readMark?_cons {mark : Char} (h : isBlank mark = false) (rest : List Char) :
    readMark? mark (mark :: rest) = some rest := by
  unfold readMark?
  rw [trimStart_cons h]
  exact if_pos rfl

/-- A year with a sign may have any number of digits, up to the mark behind it. -/
theorem readNumber?_year (n : Nat) (rest : List Char) :
    readNumber? (padded 4 n ++ '-' :: rest).length (padded 4 n ++ '-' :: rest)
      = some (n, '-' :: rest) := by
  refine readNumber?_digits (readNat?_padded 4 n) ?_ (.inr ?_)
  · rw [List.length_append]
    exact Nat.le_add_right _ _
  · intro c hc
    obtain rfl : '-' = c := Option.some.inj hc
    decide

/-- A year of four digits has no sign. -/
theorem readYear?_padded (h : n < 10000) (rest : List Char) :
    readYear? (padded 4 n ++ '-' :: rest) = some ((n : Int), '-' :: rest) := by
  have hlen : (padded 4 n).length = 4 := length_padded (by decide) h
  have hread : readNumber? 4 (padded 4 n ++ '-' :: rest) = some (n, '-' :: rest) :=
    readNumber?_digits (readNat?_padded 4 n) hlen.le (.inl hlen)
  obtain ⟨d, ds, hds, hd⟩ := exists_cons_of_readNat? (readNat?_padded 4 n)
  rw [hds] at hread ⊢
  unfold readYear?
  rw [List.cons_append, trimStart_cons (isBlank_eq_false_of_isAsciiDigit hd)]
  split
  next hminus =>
    obtain ⟨rfl, -⟩ := List.cons.inj hminus
    exact absurd hd (by decide)
  next hplus =>
    obtain ⟨rfl, -⟩ := List.cons.inj hplus
    exact absurd hd (by decide)
  next =>
    rw [← List.cons_append, hread]
    rfl

theorem readYear?_yearChars (year : Int) (rest : List Char) :
    readYear? (yearChars year ++ '-' :: rest) = some (year, '-' :: rest) := by
  unfold yearChars
  split
  next hfour =>
    rw [readYear?_padded (by omega), Int.toNat_of_nonneg hfour.1]
  next =>
    split
    next hneg =>
      show (readNumber? (padded 4 year.natAbs ++ '-' :: rest).length
        (padded 4 year.natAbs ++ '-' :: rest)).map _ = _
      rw [readNumber?_year]
      exact congrArg some (Prod.ext (by dsimp only; omega) rfl)
    next hnonneg =>
      show (readNumber? (padded 4 year.natAbs ++ '-' :: rest).length
        (padded 4 year.natAbs ++ '-' :: rest)).map _ = _
      rw [readNumber?_year]
      exact congrArg some (Prod.ext (by dsimp only; omega) rfl)

/-- A fraction is read back from the digits that it is written with. -/
theorem readFraction?_digits {scale k : Nat} (hwidth : 0 < width) (hscale : width + scale = 9)
    (h : k < 10 ^ width) (rest : List Char) :
    readFraction? ('.' :: padded width k ++ 'Z' :: rest)
      = some (k * 10 ^ scale, 'Z' :: rest) := by
  have hlen := length_padded hwidth h
  have htake : (padded width k ++ 'Z' :: rest).takeWhile isAsciiDigit = padded width k :=
    takeWhile_run (fun c hc => isAsciiDigit_of_mem_padded hc) (by
      intro c hc
      obtain rfl : 'Z' = c := Option.some.inj hc
      decide)
  show (readNat? (((padded width k ++ 'Z' :: rest).takeWhile isAsciiDigit).take 9)).map
    (fun n => (n * Nat.pow 10 (9 - (((padded width k ++ 'Z' :: rest).takeWhile
      isAsciiDigit).take 9).length), (padded width k ++ 'Z' :: rest).drop
        ((padded width k ++ 'Z' :: rest).takeWhile isAsciiDigit).length)) = _
  rw [htake, List.take_of_length_le (by omega), readNat?_padded, Option.map_some, List.drop_left,
    hlen, show 9 - width = scale by omega]
  rfl

theorem readFraction?_fractionChars (h : n < 1000000000) (rest : List Char) :
    readFraction? (fractionChars n ++ 'Z' :: rest) = some (n, 'Z' :: rest) := by
  unfold fractionChars
  split
  next hzero => rw [hzero]; rfl
  next =>
    split
    next hmilli =>
      rw [readFraction?_digits (by decide) (show 3 + 6 = 9 from rfl) (by omega)]
      congr 2
      omega
    next =>
      split
      next hmicro =>
        rw [readFraction?_digits (by decide) (show 6 + 3 = 9 from rfl) (by omega)]
        congr 2
        omega
      next =>
        rw [readFraction?_digits (by decide) (show 9 + 0 = 9 from rfl) (by omega)]
        congr 2
        omega

/-! ### Reading an instant -/

/-- A date of the calendar and a time of day in universal time are read from their parts. -/
theorem read?_parts {year : Int} {month day hour minute second fraction : Nat}
    (hdate : IsDate year month day) (hyear : (year.natAbs : Int) ≤ maxYear) (hhour : hour < 24)
    (hminute : minute < 60) (hsecond : second < 60) (hfraction : fraction < 1000000000) :
    read? (yearChars year ++ '-' :: (padded 2 month ++ '-' :: (padded 2 day ++
      'T' :: (padded 2 hour ++ ':' :: (padded 2 minute ++ ':' :: (padded 2 second ++
        (fractionChars fraction ++ ['Z'])))))))
      = some (ofDate year month day (hour * 3600 + minute * 60 + second) fraction) := by
  obtain ⟨hone, htwelve, hday, hlast⟩ := hdate
  have hday31 := hlast.trans (daysInMonth_le_31 year month)
  unfold read?
  rw [readYear?_yearChars]
  dsimp only [Option.bind_eq_bind, Option.bind_some]
  rw [readMark?_cons (by decide)]
  dsimp only [Option.bind_some]
  rw [trimStart_digits (readNat?_padded 2 month), readNumber?_two (by omega)]
  dsimp only [Option.bind_some]
  rw [readMark?_cons (by decide)]
  dsimp only [Option.bind_some]
  rw [readNumber?_two (by omega)]
  dsimp only [Option.bind_some, readTimeMark?]
  rw [if_pos (.inl rfl)]
  dsimp only [Option.bind_some]
  rw [readNumber?_two (by omega)]
  dsimp only [Option.bind_some]
  rw [readMark?_cons (by decide)]
  dsimp only [Option.bind_some]
  rw [readNumber?_two (by omega)]
  dsimp only [Option.bind_some]
  rw [readMark?_cons (by decide)]
  dsimp only [Option.bind_some]
  rw [readNumber?_two (by omega)]
  dsimp only [Option.bind_some]
  rw [readFraction?_fractionChars hfraction []]
  dsimp only [Option.bind_some]
  rw [trimStart_cons (by decide)]
  show (if month < 1 ∨ 12 < month ∨ day < 1 ∨ daysInMonth year month < day then none
    else if 23 < hour ∨ 59 < minute ∨ 60 < second ∨ maxYear < (year.natAbs : Int) then none
    else some (ofDate year month day (hour * 3600 + minute * 60 + second - 0) fraction)) = _
  rw [if_neg (by omega), if_neg (by omega), Int.sub_zero]

/-- The text of an instant that the calendar reaches is read back as that instant. -/
theorem read?_text {t : Int} (h : InCalendar t) : read? (text t).toList = some t := by
  obtain ⟨hdate, hnumber⟩ := dateOfDay_spec (t / perSecond / perDay)
  have htext : (text t).toList = yearChars (dateOfDay (t / perSecond / perDay)).1 ++
      '-' :: (padded 2 (dateOfDay (t / perSecond / perDay)).2.1 ++
      '-' :: (padded 2 (dateOfDay (t / perSecond / perDay)).2.2 ++
      'T' :: (padded 2 ((t / perSecond % perDay).toNat / 3600) ++
      ':' :: (padded 2 ((t / perSecond % perDay).toNat / 60 % 60) ++
      ':' :: (padded 2 (t / perSecond % 60).toNat ++
      (fractionChars (t % perSecond).toNat ++ ['Z'])))))) := by
    rw [text, String.toList_ofList, minuteChars]
    simp only [List.append_assoc, List.cons_append]
  unfold perSecond perDay at *
  rw [htext, read?_parts hdate (natAbs_year_le h) (by omega) (by omega) (by omega) (by omega),
    ofDate, hnumber]
  -- hours, minutes and seconds of the day, days and nanoseconds add up to the instant
  unfold perSecond perDay
  refine congrArg some ?_
  generalize hq : t / 1000000000 = q
  have hofDay : ((q % 86400).toNat / 3600 : Nat) * 3600 + ((q % 86400).toNat / 60 % 60 : Nat) * 60
      + ((q % 60).toNat : Int) = q % 86400 := by omega
  rw [hofDay]
  show ((q / 86400 * 86400 + q % 86400) * 1000000000 + (t % 1000000000).toNat : Int) = t
  omega

end MotifQuery.Instant
