import MotifQuery.Proofs.Json.Grammar
import MotifQuery.Proofs.Text.Split

/-!
# `MotifQuery.Proofs.Json.Token`: the readers of numbers and strings

Each reader is taken through its texts: it reads every one of them to its end, and whatever
it reads is one. A number has no mark of its own at its end, so the reading of one needs
something after it that does not go on with it (`EndsNumber`).
-/

set_option autoImplicit false

namespace MotifQuery.Json

open Text Number

variable {rest : List Char}

/-! ### Blanks -/

theorem isSpace_iff {c : Char} : isSpace c = true ↔ c = ' ' ∨ c = '\n' ∨ c = '\t' ∨ c = '\r' := by
  simp [isSpace, or_assoc]

theorem Spaces.nil : Spaces [] :=
  fun _ h => absurd h List.not_mem_nil

theorem Spaces.append {before after : List Char} (hbefore : Spaces before)
    (hafter : Spaces after) : Spaces (before ++ after) := fun c hc =>
  (List.mem_append.1 hc).elim (hbefore c) (hafter c)

theorem skipSpace_append {blanks : List Char} (h : Spaces blanks) (cs : List Char) :
    skipSpace (blanks ++ cs) = skipSpace cs :=
  List.dropWhile_append_of_pos h

theorem skipSpace_cons {c : Char} (h : isSpace c = false) (cs : List Char) :
    skipSpace (c :: cs) = c :: cs := by
  rw [skipSpace, List.dropWhile_cons, h, if_neg Bool.false_ne_true]

/-- What is skipped is blank. -/
theorem exists_spaces (cs : List Char) : ∃ blanks, Spaces blanks ∧ cs = blanks ++ skipSpace cs :=
  ⟨cs.takeWhile isSpace, List.all_eq_true.1 List.all_takeWhile,
    List.takeWhile_append_dropWhile.symm⟩

/-! ### Numbers -/

theorem EndsNumber.not_digit (h : EndsNumber rest) : ∀ c ∈ rest.head?, isAsciiDigit c = false :=
  fun c hc => (h c hc).1

/-- The first of some digits. -/
theorem Digits.exists_cons {cs : List Char} (h : Digits cs) :
    ∃ c ds, cs = c :: ds ∧ isAsciiDigit c = true := by
  cases cs with
  | nil => exact absurd rfl h.1
  | cons c ds => exact ⟨c, ds, rfl, h.2 c List.mem_cons_self⟩

theorem readPower?_of_text {negative : Bool} {sign digits : List Char}
    (hsign : PowerSign negative sign) (h : Digits digits)
    (hrest : ∀ c ∈ rest.head?, isAsciiDigit c = false) :
    readPower? (sign ++ digits ++ rest) = some ((negative, digits), rest) := by
  have hcut : ∀ negative : Bool,
      (if ((digits ++ rest).takeWhile isAsciiDigit).isEmpty then none
        else some ((negative, (digits ++ rest).takeWhile isAsciiDigit),
          (digits ++ rest).dropWhile isAsciiDigit))
        = some ((negative, digits), rest) := by
    intro negative
    rw [takeWhile_run h.2 hrest, dropWhile_run h.2 hrest,
      if_neg (by rw [List.isEmpty_eq_false_iff.2 h.1]; exact Bool.false_ne_true)]
  cases hsign with
  | plus => exact hcut false
  | minus => exact hcut true
  | bare =>
    obtain ⟨d, ds, rfl, hd⟩ := h.exists_cons
    -- a power without a sign begins with a digit, so neither sign is taken off
    have hminus : d ≠ '-' := by rintro rfl; exact absurd hd (by decide)
    have hplus : d ≠ '+' := by rintro rfl; exact absurd hd (by decide)
    have hbare : readPower? (d :: (ds ++ rest))
        = if ((d :: ds ++ rest).takeWhile isAsciiDigit).isEmpty then none
          else some ((false, (d :: ds ++ rest).takeWhile isAsciiDigit),
            (d :: ds ++ rest).dropWhile isAsciiDigit) := by
      unfold readPower?
      split
      next negative digits heq =>
        split at heq
        · next h => exact absurd (List.cons.inj h).1 hminus
        · next h => exact absurd (List.cons.inj h).1 hplus
        · obtain ⟨rfl, rfl⟩ := Prod.mk.inj heq
          rfl
    exact hbare.trans (hcut false)

theorem readNumberEnd?_of_text {negative : Bool} {whole fraction power : List Char}
    {exponent : Option (Bool × List Char)} (h : PowerText exponent power)
    (hrest : EndsNumber rest) :
    readNumberEnd? negative whole fraction (power ++ rest)
      = some (⟨negative, whole, fraction, exponent⟩, rest) := by
  cases h with
  | absent =>
    cases rest with
    | nil => rfl
    | cons c rest =>
      obtain ⟨-, -, he, hE⟩ := hrest c rfl
      exact if_neg (not_or.2 ⟨he, hE⟩)
  | present hletter hsign h =>
    rename_i letter negative sign digits
    show (if letter = 'e' ∨ letter = 'E' then _ else _) = _
    have hread := readPower?_of_text hsign h hrest.not_digit
    rw [if_pos hletter]
    exact congrArg (Option.map _) hread

/-- A fraction or a power of ten after some digits goes on with no digit. -/
theorem FractionText.not_digit {fraction text power : List Char}
    {exponent : Option (Bool × List Char)} (h : FractionText fraction text)
    (hpower : PowerText exponent power) (hrest : EndsNumber rest) :
    ∀ c ∈ (text ++ (power ++ rest)).head?, isAsciiDigit c = false := by
  cases h with
  | present => rintro _ ⟨⟩; rfl
  | absent =>
    cases hpower with
    | absent => exact hrest.not_digit
    | present hletter =>
      rintro _ ⟨⟩
      rcases hletter with rfl | rfl <;> rfl

theorem PowerText.not_digit {power : List Char} {exponent : Option (Bool × List Char)}
    (h : PowerText exponent power) (hrest : EndsNumber rest) :
    ∀ c ∈ (power ++ rest).head?, isAsciiDigit c = false :=
  FractionText.absent.not_digit h hrest

theorem readNumber?_of_text {t : NumberText} {cs : List Char} (h : MagnitudeText t cs)
    (hrest : EndsNumber rest) : readNumber? t.negative (cs ++ rest) = some (t, rest) := by
  obtain ⟨negative, whole, fraction, exponent⟩ := t
  obtain ⟨⟨hwhole, hzero⟩, hfraction, hpower⟩ := h
  rename_i text power
  have hstop := hfraction.not_digit hpower hrest
  have hstart : (whole.isEmpty || (whole.head? == some '0' && whole.length != 1)) = false := by
    rw [List.isEmpty_eq_false_iff.2 hwhole.1, Bool.false_or]
    by_cases h0 : whole.head? = some '0'
    · rw [hzero h0]; exact Bool.and_false _
    · rw [beq_eq_false_iff_ne.2 h0]; exact Bool.false_and _
  have htext : whole ++ (text ++ power) ++ rest = whole ++ (text ++ (power ++ rest)) := by
    simp only [List.append_assoc]
  dsimp only at hwhole hzero hfraction hpower hstop ⊢
  rw [htext]
  unfold readNumber?
  rw [takeWhile_run hwhole.2 hstop, dropWhile_run hwhole.2 hstop]
  dsimp only
  rw [hstart, if_neg Bool.false_ne_true]
  cases hfraction with
  | present hdigits =>
    have hpoint := hpower.not_digit hrest
    show (if ((fraction ++ (power ++ rest)).takeWhile isAsciiDigit).isEmpty then none
      else readNumberEnd? negative whole ((fraction ++ (power ++ rest)).takeWhile isAsciiDigit)
        ((fraction ++ (power ++ rest)).dropWhile isAsciiDigit)) = _
    rw [takeWhile_run hdigits.2 hpoint, dropWhile_run hdigits.2 hpoint,
      List.isEmpty_eq_false_iff.2 hdigits.1, if_neg Bool.false_ne_true]
    exact readNumberEnd?_of_text hpower hrest
  | absent =>
    rw [List.nil_append]
    split
    · next after heq =>
      -- no power of ten and no end of a number opens with a point
      cases hpower with
      | absent =>
        rw [List.nil_append] at heq
        exact absurd rfl (hrest '.' (by rw [heq]; rfl)).2.1
      | present hletter =>
        have hpoint := (List.cons.inj heq).1
        rcases hletter with rfl | rfl <;> exact absurd hpoint (by decide)
    · exact readNumberEnd?_of_text hpower hrest

/-- What stands before the first character that is no digit. -/
theorem exists_digits (cs : List Char) (h : (cs.takeWhile isAsciiDigit).isEmpty = false) :
    Digits (cs.takeWhile isAsciiDigit) ∧
      cs = cs.takeWhile isAsciiDigit ++ cs.dropWhile isAsciiDigit :=
  ⟨⟨List.isEmpty_eq_false_iff.1 h, List.all_eq_true.1 List.all_takeWhile⟩,
    List.takeWhile_append_dropWhile.symm⟩

theorem text_of_readPower? {cs digits : List Char} {negative : Bool}
    (h : readPower? cs = some ((negative, digits), rest)) :
    ∃ sign, PowerSign negative sign ∧ Digits digits ∧ cs = sign ++ digits ++ rest := by
  -- whatever the sign, the digits end where the rest begins
  have hcut : ∀ (negative' : Bool) (ds : List Char),
      (if (ds.takeWhile isAsciiDigit).isEmpty then none
        else some ((negative', ds.takeWhile isAsciiDigit), ds.dropWhile isAsciiDigit))
          = some ((negative, digits), rest) →
        negative' = negative ∧ Digits digits ∧ ds = digits ++ rest := by
    intro negative' ds hds
    cases hempty : (ds.takeWhile isAsciiDigit).isEmpty with
    | true => simp [hempty] at hds
    | false =>
      rw [hempty, if_neg Bool.false_ne_true] at hds
      obtain ⟨hdigits, hrest⟩ := Prod.mk.inj (Option.some.inj hds)
      obtain ⟨rfl, rfl⟩ := Prod.mk.inj hdigits
      obtain ⟨hdigits, hsplit⟩ := exists_digits ds hempty
      exact ⟨rfl, hdigits, hrest ▸ hsplit⟩
  unfold readPower? at h
  split at h
  next negative' ds heq =>
    obtain ⟨rfl, hdigits, rfl⟩ := hcut negative' ds h
    split at heq
    · obtain ⟨rfl, rfl⟩ := Prod.mk.inj heq
      exact ⟨['-'], .minus, hdigits, rfl⟩
    · obtain ⟨rfl, rfl⟩ := Prod.mk.inj heq
      exact ⟨['+'], .plus, hdigits, rfl⟩
    · obtain ⟨rfl, rfl⟩ := Prod.mk.inj heq
      exact ⟨[], .bare, hdigits, rfl⟩

theorem text_of_readNumberEnd? {negative : Bool} {whole fraction cs : List Char} {t : NumberText}
    (h : readNumberEnd? negative whole fraction cs = some (t, rest)) :
    ∃ exponent power, PowerText exponent power ∧ t = ⟨negative, whole, fraction, exponent⟩ ∧
      cs = power ++ rest := by
  cases cs with
  | nil =>
    obtain ⟨rfl, rfl⟩ := Prod.mk.inj (Option.some.inj h)
    exact ⟨none, [], .absent, rfl, rfl⟩
  | cons c cs =>
    rw [readNumberEnd?] at h
    split at h
    · next hletter =>
      obtain ⟨⟨⟨sign, digits⟩, rest'⟩, hpower, heq⟩ := Option.map_eq_some_iff.1 h
      obtain ⟨rfl, rfl⟩ := Prod.mk.inj heq
      obtain ⟨text, hsign, hdigits, rfl⟩ := text_of_readPower? hpower
      exact ⟨_, _, .present hletter hsign hdigits, rfl, rfl⟩
    · obtain ⟨rfl, rfl⟩ := Prod.mk.inj (Option.some.inj h)
      exact ⟨none, [], .absent, rfl, rfl⟩

theorem text_of_readNumber? {negative : Bool} {cs : List Char} {t : NumberText}
    (h : readNumber? negative cs = some (t, rest)) :
    ∃ text, MagnitudeText t text ∧ t.negative = negative ∧ cs = text ++ rest := by
  unfold readNumber? at h
  dsimp only at h
  split at h
  · cases h
  next hstart =>
  -- no leading zero, so the digits are a whole part
  obtain ⟨hne, hzero⟩ := Bool.or_eq_false_iff.1 (Bool.eq_false_iff.2 hstart)
  obtain ⟨hdigits, hsplit⟩ := exists_digits cs hne
  have hwhole : WholeText (cs.takeWhile isAsciiDigit) := by
    refine ⟨hdigits, fun h0 => ?_⟩
    simpa [h0] using hzero
  split at h
  · next after heq =>
    split at h
    · cases h
    next hfraction =>
    obtain ⟨hfraction, hafter⟩ := exists_digits after (Bool.eq_false_iff.2 hfraction)
    obtain ⟨exponent, power, hpower, rfl, hend⟩ := text_of_readNumberEnd? h
    refine ⟨_, .intro hwhole (.present hfraction) hpower, rfl, ?_⟩
    rw [heq] at hsplit
    simp only [List.append_assoc, List.cons_append, ← hend, ← hafter]
    exact hsplit
  · obtain ⟨exponent, power, hpower, rfl, hend⟩ := text_of_readNumberEnd? h
    refine ⟨_, .intro hwhole .absent hpower, rfl, ?_⟩
    simp only [List.append_assoc, List.nil_append, ← hend]
    exact hsplit

/-! ### Strings -/

theorem readParts?_of_text {parts : List StringPart} {cs : List Char} (h : PartsText parts cs) :
    readParts? (cs ++ rest) = some (parts, rest) := by
  induction h with
  | close => rfl
  | unit h _ ih =>
    simp only [List.cons_append]
    rw [readParts?, h]
    dsimp only
    rw [ih]
    rfl
  | escaped h _ ih =>
    rename_i letter c parts cs _
    -- the letter of a code unit is not that of an escaped character, so the branch is settled
    have hletter : letter ≠ 'u' := by
      rintro rfl
      have hnone : escapedChar? 'u' = none := by decide
      cases hnone.symm.trans h
    simp only [List.cons_append]
    rw [readParts?, h]
    · dsimp only
      rw [ih]
      rfl
    · intro a b c d rest heq
      exact absurd heq hletter
  | plain hquote hescape hcontrol _ ih =>
    simp only [List.cons_append]
    rw [readParts?, if_neg (not_or.2 ⟨hcontrol, hescape⟩), ih]
    · rfl
    · exact hquote
    · intro a b c d rest heq
      exact absurd heq hescape
    · intro c rest heq
      exact absurd heq hescape

theorem text_of_readParts? {cs : List Char} {parts : List StringPart}
    (h : readParts? cs = some (parts, rest)) :
    ∃ text, PartsText parts text ∧ cs = text ++ rest := by
  fun_induction readParts? cs generalizing parts with
  | case1 => simp at h
  | case2 cs =>
    obtain ⟨rfl, rfl⟩ := Prod.mk.inj (Option.some.inj h)
    exact ⟨_, .close, rfl⟩
  | case3 a b c d cs n hhex ih =>
    obtain ⟨⟨parts', rest'⟩, hparts, heq⟩ := Option.map_eq_some_iff.1 h
    obtain ⟨rfl, rfl⟩ := Prod.mk.inj heq
    obtain ⟨text, htext, rfl⟩ := ih hparts
    exact ⟨_, .unit hhex htext, rfl⟩
  | case4 => simp at h
  | case5 letter cs _ c hc ih =>
    obtain ⟨⟨parts', rest'⟩, hparts, heq⟩ := Option.map_eq_some_iff.1 h
    obtain ⟨rfl, rfl⟩ := Prod.mk.inj heq
    obtain ⟨text, htext, rfl⟩ := ih hparts
    exact ⟨_, .escaped hc htext, rfl⟩
  | case6 => simp at h
  | case7 => simp at h
  | case8 c cs hquote _ _ hc ih =>
    obtain ⟨⟨parts', rest'⟩, hparts, heq⟩ := Option.map_eq_some_iff.1 h
    obtain ⟨rfl, rfl⟩ := Prod.mk.inj heq
    obtain ⟨text, htext, rfl⟩ := ih hparts
    obtain ⟨hcontrol, hescape⟩ := not_or.1 hc
    exact ⟨_, .plain hquote hescape hcontrol htext, rfl⟩

theorem readString?_of_text {s : Option String} {cs : List Char} (h : StringText s cs) :
    readString? (cs ++ rest) = some (s, rest) := by
  obtain ⟨h⟩ := h
  rw [readString?, readParts?_of_text h]
  rfl

theorem text_of_readString? {cs : List Char} {s : Option String}
    (h : readString? cs = some (s, rest)) : ∃ text, StringText s text ∧ cs = text ++ rest := by
  obtain ⟨⟨parts, rest'⟩, hparts, heq⟩ := Option.map_eq_some_iff.1 h
  obtain ⟨rfl, rfl⟩ := Prod.mk.inj heq
  obtain ⟨text, htext, rfl⟩ := text_of_readParts? hparts
  exact ⟨text, .intro htext, rfl⟩

end MotifQuery.Json
