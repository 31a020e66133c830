import Mathlib.Tactic.IntervalCases
import MotifQuery.Number.Integer

/-!
# `MotifQuery.Proofs.Number.Integer`: whole numbers read back

The decimal text of a whole number is read back as that number: `readNat?_natDigits`,
`readInt?_intChars` and, within 64 bits, `readInt64?_intChars`. So different numbers have
different texts (`natText_inj`).
-/

set_option autoImplicit false

namespace MotifQuery.Number

open Text

theorem isAsciiDigit_of_mem_natDigits {n : Nat} {c : Char} (h : c ∈ natDigits n) :
    isAsciiDigit c = true := by
  have hdigit : c.isDigit = true :=
    Nat.isDigit_of_mem_toDigits (by decide) (by decide) h
  simpa [Char.isDigit, isAsciiDigit, Char.le_def] using hdigit

theorem natDigits_ne_nil (n : Nat) : natDigits n ≠ [] :=
  Nat.toDigits_ne_nil

theorem digitsValue_natDigits (n : Nat) : digitsValue (natDigits n) = n := by
  show Nat.ofDigitChars 10 (Nat.toDigits 10 n) 0 = n
  exact Nat.ofDigitChars_ten_toDigits

theorem readNat?_eq_some_iff {cs : List Char} {n : Nat} :
    readNat? cs = some n ↔ cs ≠ [] ∧ (∀ c ∈ cs, isAsciiDigit c = true) ∧ digitsValue cs = n := by
  unfold readNat?
  split
  · next h =>
    rw [Bool.and_eq_true, Bool.not_eq_true', List.isEmpty_eq_false_iff, List.all_eq_true] at h
    rw [Option.some_inj]
    exact ⟨fun hn => ⟨h.1, h.2, hn⟩, fun hn => hn.2.2⟩
  · next h =>
    rw [Bool.and_eq_true, Bool.not_eq_true', List.isEmpty_eq_false_iff, List.all_eq_true] at h
    constructor
    · intro h
      cases h
    · rintro ⟨hne, hdigits, -⟩
      exact absurd ⟨hne, hdigits⟩ h

theorem readNat?_natDigits (n : Nat) : readNat? (natDigits n) = some n :=
  readNat?_eq_some_iff.2 ⟨natDigits_ne_nil n, fun _ hc => isAsciiDigit_of_mem_natDigits hc,
    digitsValue_natDigits n⟩

/-- A number above zero opens with no zero. -/
theorem head?_natDigits {n : Nat} (h : 0 < n) : (natDigits n).head? ≠ some '0' := by
  induction n using Nat.strong_induction_on with
  | _ n ih =>
    show (Nat.toDigits 10 n).head? ≠ some '0'
    rcases Nat.lt_or_ge n 10 with hlt | hge
    · rw [Nat.toDigits_of_lt_base hlt]
      interval_cases n <;> decide
    · rw [Nat.toDigits_of_base_le (by decide) hge]
      have hhead := ih (n / 10) (by omega) (by omega)
      cases hcs : natDigits (n / 10) with
      | nil => exact absurd hcs (natDigits_ne_nil _)
      | cons c cs =>
        rw [hcs] at hhead
        rw [show Nat.toDigits 10 (n / 10) = c :: cs from hcs]
        exact hhead

/-- Digits have no sign. -/
theorem splitSign_of_digits {cs : List Char} (h : ∀ c ∈ cs, isAsciiDigit c = true) :
    splitSign cs = (false, cs) := by
  cases cs with
  | nil => rfl
  | cons c cs =>
    have hc := h c List.mem_cons_self
    have hne : ∀ d, isAsciiDigit d = false → c ≠ d := by
      rintro d hd rfl
      rw [hc] at hd
      cases hd
    rw [splitSign, if_neg (hne '-' rfl), if_neg (hne '+' rfl)]

theorem splitSign_natDigits (n : Nat) : splitSign (natDigits n) = (false, natDigits n) :=
  splitSign_of_digits fun _ hc => isAsciiDigit_of_mem_natDigits hc

theorem readInt?_intChars (n : Int) : readInt? (intChars n) = some n := by
  by_cases hneg : n < 0
  · have hsplit : splitSign (intChars n) = (true, natDigits n.natAbs) := by
      rw [intChars, if_pos hneg]
      rfl
    rw [readInt?, hsplit]
    dsimp only
    rw [readNat?_natDigits]
    show some (-(n.natAbs : Int)) = some n
    congr 1
    omega
  · have hsplit : splitSign (intChars n) = (false, natDigits n.natAbs) := by
      rw [intChars, if_neg hneg, splitSign_natDigits]
    rw [readInt?, hsplit]
    dsimp only
    rw [readNat?_natDigits]
    show some (n.natAbs : Int) = some n
    congr 1
    omega

theorem readInt64?_intChars {n : Int} (h : fitsInt64 n = true) :
    readInt64? (intChars n) = some n := by
  rw [readInt64?, readInt?_intChars, Option.filter_some, if_pos h]

/-- The characters of a whole number. -/
theorem mem_intChars {n : Int} {c : Char} (h : c ∈ intChars n) :
    c = '-' ∨ isAsciiDigit c = true := by
  unfold intChars at h
  split at h
  · rcases List.mem_cons.1 h with h | h
    · exact .inl h
    · exact .inr (isAsciiDigit_of_mem_natDigits h)
  · exact .inr (isAsciiDigit_of_mem_natDigits h)

theorem intChars_ne_nil (n : Int) : intChars n ≠ [] := by
  unfold intChars
  split
  · exact List.cons_ne_nil _ _
  · exact natDigits_ne_nil _

theorem natText_inj {m n : Nat} (h : natText m = natText n) : m = n := by
  have hdigits : natDigits m = natDigits n := String.ofList_injective h
  rw [← digitsValue_natDigits m, hdigits, digitsValue_natDigits]

end MotifQuery.Number
