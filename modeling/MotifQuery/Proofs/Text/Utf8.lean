import MotifQuery.Text.Utf8

/-!
# `MotifQuery.Proofs.Text.Utf8`: texts read back from their bytes

Every character is read back from its bytes (`readChar_encodeChar`), so `decode?` and
`decodeLossy` undo `encode` on whole texts. An ASCII byte stands for its own character
only: the bytes of any other character are above all ASCII bytes (`mem_encodeChar`). Where the
bytes of a text break off, what is read is the text up to there, or nothing when a character
is cut through (`of_decode?_front`).
-/

set_option autoImplicit false

namespace MotifQuery.Text

/-! ### One character -/

theorem within_iff {low high b : UInt8} :
    within low high b = true ↔ low.toNat ≤ b.toNat ∧ b.toNat ≤ high.toNat := by
  rw [within, Bool.and_eq_true, decide_eq_true_iff, decide_eq_true_iff, UInt8.le_iff_toNat_le,
    UInt8.le_iff_toNat_le]

theorem toNat_toUInt8 {n : Nat} (h : n < 256) : n.toUInt8.toNat = n :=
  Nat.mod_eq_of_lt h

/-- A continuation byte within its bounds is read onto the payload. -/
theorem readTail_succ {count k n : Nat} {low high : UInt8} (hlow : low.toNat ≤ 0x80 + k)
    (hhigh : 0x80 + k ≤ high.toNat) (hk : k < 64) (bs : Bytes) :
    readTail (count + 1) low high n ((0x80 + k).toUInt8 :: bs)
      = readTail count 0x80 0xBF (n * 64 + k) bs := by
  have hbyte : (0x80 + k).toUInt8.toNat = 0x80 + k := toNat_toUInt8 (by omega)
  have hpayload : payload (0x80 + k).toUInt8 = k := by
    show (0x80 + k).toUInt8.toNat - 0x80 = k
    omega
  have hwithin : within low high (0x80 + k).toUInt8 = true := by
    rw [within_iff, hbyte]
    exact ⟨hlow, hhigh⟩
  rw [readTail, if_pos hwithin, hpayload]

theorem readTail_succ_of_lt {count k n : Nat} (hk : k < 64) (bs : Bytes) :
    readTail (count + 1) 0x80 0xBF n ((0x80 + k).toUInt8 :: bs)
      = readTail count 0x80 0xBF (n * 64 + k) bs := by
  refine readTail_succ ?_ ?_ hk bs
  · show 128 ≤ 128 + k
    omega
  · show 128 + k ≤ 191
    omega

theorem not_within_of_lt {low high b : UInt8} (h : high.toNat < b.toNat) :
    ¬ within low high b = true := by
  rw [within_iff]
  omega

theorem ne_of_toNat_ne {a b : UInt8} (h : a.toNat ≠ b.toNat) : a ≠ b :=
  fun heq => h (heq ▸ rfl)

/-- The first of two bytes. -/
theorem leader?_two {k : Nat} (hlow : 2 ≤ k) (hhigh : k < 32) :
    leader? (0xC0 + k).toUInt8 = some (1, 0x80, 0xBF, k) := by
  have hbyte : (0xC0 + k).toUInt8.toNat = 0xC0 + k := toNat_toUInt8 (by omega)
  have hwithin : within 0xC2 0xDF (0xC0 + k).toUInt8 = true := by
    rw [within_iff, hbyte]
    show 194 ≤ 192 + k ∧ 192 + k ≤ 223
    omega
  have hpayload : 0xC0 + k - 0xC0 = k := by omega
  rw [leader?, if_pos hwithin, hbyte, hpayload]

/-- The first of three bytes bounds the second, so that no number is written with too many
bytes and no surrogate is written at all. -/
theorem leader?_three {k j : Nat} (hk : k < 16) (hj : j < 64) (hsmall : k = 0 → 32 ≤ j)
    (hsurrogate : k = 13 → j < 32) :
    ∃ low high : UInt8, leader? (0xE0 + k).toUInt8 = some (2, low, high, k) ∧
      low.toNat ≤ 0x80 + j ∧ 0x80 + j ≤ high.toNat := by
  have hbyte : (0xE0 + k).toUInt8.toNat = 0xE0 + k := toNat_toUInt8 (by omega)
  have htwo : ¬ within 0xC2 0xDF (0xE0 + k).toUInt8 = true := by
    refine not_within_of_lt ?_
    rw [hbyte]
    show 223 < 224 + k
    omega
  -- the second byte starts late after 0xE0 and ends early after 0xED
  by_cases hzero : k = 0
  · subst hzero
    refine ⟨0xA0, 0xBF, rfl, ?_, ?_⟩
    · show 160 ≤ 128 + j
      have := hsmall rfl
      omega
    · show 128 + j ≤ 191
      omega
  by_cases hthirteen : k = 13
  · subst hthirteen
    refine ⟨0x80, 0x9F, rfl, ?_, ?_⟩
    · show 128 ≤ 128 + j
      omega
    · show 128 + j ≤ 159
      have := hsurrogate rfl
      omega
  have hE0 : (0xE0 + k).toUInt8 ≠ 0xE0 := ne_of_toNat_ne (by
    rw [hbyte]
    show 224 + k ≠ 224
    omega)
  have hED : (0xE0 + k).toUInt8 ≠ 0xED := ne_of_toNat_ne (by
    rw [hbyte]
    show 224 + k ≠ 237
    omega)
  have hwithin : within 0xE1 0xEF (0xE0 + k).toUInt8 = true := by
    rw [within_iff, hbyte]
    show 225 ≤ 224 + k ∧ 224 + k ≤ 239
    omega
  refine ⟨0x80, 0xBF, ?_, ?_, ?_⟩
  · have hpayload : 0xE0 + k - 0xE0 = k := by omega
    rw [leader?, if_neg htwo, if_neg hE0, if_neg hED, if_pos hwithin, hbyte, hpayload]
  · show 128 ≤ 128 + j
    omega
  · show 128 + j ≤ 191
    omega

/-- The first of four bytes. -/
theorem leader?_four {k j : Nat} (hk : k ≤ 4) (hj : j < 64) (hsmall : k = 0 → 16 ≤ j)
    (hlarge : k = 4 → j < 16) :
    ∃ low high : UInt8, leader? (0xF0 + k).toUInt8 = some (3, low, high, k) ∧
      low.toNat ≤ 0x80 + j ∧ 0x80 + j ≤ high.toNat := by
  have hcases : k = 0 ∨ k = 4 ∨ (k = 1 ∨ k = 2 ∨ k = 3) := by omega
  rcases hcases with rfl | rfl | hmiddle
  · refine ⟨0x90, 0xBF, rfl, ?_, ?_⟩
    · show 144 ≤ 128 + j
      have := hsmall rfl
      omega
    · show 128 + j ≤ 191
      omega
  · refine ⟨0x80, 0x8F, rfl, ?_, ?_⟩
    · show 128 ≤ 128 + j
      omega
    · show 128 + j ≤ 143
      have := hlarge rfl
      omega
  · refine ⟨0x80, 0xBF, ?_, ?_, ?_⟩
    · rcases hmiddle with rfl | rfl | rfl <;> rfl
    · show 128 ≤ 128 + j
      omega
    · show 128 + j ≤ 191
      omega

/-- A character is no surrogate and not above the last code point. -/
theorem toNat_bounds (c : Char) : c.toNat < 0xD800 ∨ (0xDFFF < c.toNat ∧ c.toNat < 0x110000) :=
  c.valid

/-- A character is read back from its bytes, whatever follows them. -/
theorem readChar_encodeChar (c : Char) (rest : Bytes) :
    ∃ b bs, encodeChar c = b :: bs ∧ readChar b (bs ++ rest) = (some c, rest) := by
  have hbounds := toNat_bounds c
  have hnot : ∀ n, 128 ≤ n → n < 256 → ¬ n.toUInt8 < 0x80 := by
    intro n hlow hhigh hlt
    rw [UInt8.lt_iff_toNat_lt, toNat_toUInt8 hhigh] at hlt
    exact absurd hlt (Nat.not_lt.2 hlow)
  -- one case for each number of bytes
  unfold encodeChar
  dsimp only
  by_cases h₁ : c.toNat < 0x80
  · refine ⟨_, [], by rw [if_pos h₁], ?_⟩
    have hbyte : c.toNat.toUInt8.toNat = c.toNat := toNat_toUInt8 (by omega)
    have hlt : c.toNat.toUInt8 < 0x80 := by
      rw [UInt8.lt_iff_toNat_lt, hbyte]
      exact h₁
    rw [readChar, if_pos hlt, hbyte, Char.ofNat_toNat, List.nil_append]
  by_cases h₂ : c.toNat < 0x800
  · refine ⟨_, [_], by rw [if_neg h₁, if_pos h₂], ?_⟩
    rw [readChar, if_neg (hnot _ (by omega) (by omega)), leader?_two (by omega) (by omega)]
    dsimp only
    rw [List.singleton_append, readTail_succ_of_lt (by omega), readTail]
    have hn : c.toNat / 64 * 64 + c.toNat % 64 = c.toNat := by omega
    rw [hn, Option.map_some, Char.ofNat_toNat]
  by_cases h₃ : c.toNat < 0x10000
  · refine ⟨_, [_, _], by rw [if_neg h₁, if_neg h₂, if_pos h₃], ?_⟩
    obtain ⟨low, high, hleader, hlow, hhigh⟩ := leader?_three
      (by omega : c.toNat / 4096 < 16) (by omega : c.toNat / 64 % 64 < 64)
      (by omega) (by omega)
    rw [readChar, if_neg (hnot _ (by omega) (by omega)), hleader]
    dsimp only
    rw [List.cons_append, readTail_succ hlow hhigh (by omega), List.cons_append,
      readTail_succ_of_lt (by omega), readTail]
    have hn : (c.toNat / 4096 * 64 + c.toNat / 64 % 64) * 64 + c.toNat % 64 = c.toNat := by omega
    rw [hn, Option.map_some, Char.ofNat_toNat, List.nil_append]
  · refine ⟨_, [_, _, _], by rw [if_neg h₁, if_neg h₂, if_neg h₃], ?_⟩
    obtain ⟨low, high, hleader, hlow, hhigh⟩ := leader?_four
      (by omega : c.toNat / 262144 ≤ 4) (by omega : c.toNat / 4096 % 64 < 64)
      (by omega) (by omega)
    rw [readChar, if_neg (hnot _ (by omega) (by omega)), hleader]
    dsimp only
    rw [List.cons_append, readTail_succ hlow hhigh (by omega), List.cons_append,
      readTail_succ_of_lt (by omega), List.cons_append, readTail_succ_of_lt (by omega), readTail]
    have hn : ((c.toNat / 262144 * 64 + c.toNat / 4096 % 64) * 64 + c.toNat / 64 % 64) * 64
        + c.toNat % 64 = c.toNat := by omega
    rw [hn, Option.map_some, Char.ofNat_toNat, List.nil_append]

/-! ### Whole texts -/

theorem encode_cons (c : Char) (cs : List Char) : encode (c :: cs) = encodeChar c ++ encode cs :=
  List.flatMap_cons

theorem encode_append (cs ds : List Char) : encode (cs ++ ds) = encode cs ++ encode ds :=
  List.flatMap_append

theorem length_le_length_encode (cs : List Char) : cs.length ≤ (encode cs).length := by
  induction cs with
  | nil => exact Nat.le_refl 0
  | cons c cs ih =>
    obtain ⟨b, bs, hbytes, -⟩ := readChar_encodeChar c []
    rw [encode_cons, hbytes, List.length_append, List.length_cons, List.length_cons]
    omega

theorem readChars_encode {fuel : Nat} {cs : List Char} (h : cs.length ≤ fuel) :
    readChars fuel (encode cs) = cs.map some := by
  induction cs generalizing fuel with
  | nil => cases fuel <;> rfl
  | cons c cs ih =>
    cases fuel with
    | zero => exact absurd h (Nat.not_succ_le_zero _)
    | succ fuel =>
      obtain ⟨b, bs, hbytes, hread⟩ := readChar_encodeChar c (encode cs)
      rw [encode_cons, hbytes, List.cons_append, readChars, hread, List.map_cons]
      dsimp only
      rw [ih (Nat.le_of_succ_le_succ h)]

theorem characters_encode (cs : List Char) : characters (encode cs) = cs.map some :=
  readChars_encode (length_le_length_encode cs)

/-- Bytes of a text are that text. -/
theorem decode?_encode (cs : List Char) : decode? (encode cs) = some cs := by
  rw [decode?, characters_encode]
  induction cs with
  | nil => rfl
  | cons c cs ih =>
    rw [List.map_cons, List.mapM_cons, ih]
    rfl

theorem decodeLossy_encode (cs : List Char) : decodeLossy (encode cs) = cs := by
  rw [decodeLossy, characters_encode, List.map_map]
  exact List.map_id cs

theorem stringOf?_bytesOf (s : String) : stringOf? (bytesOf s) = some s := by
  rw [stringOf?, bytesOf, decode?_encode, Option.map_some, String.ofList_toList]

theorem stringLossy_bytesOf (s : String) : stringLossy (bytesOf s) = s := by
  rw [stringLossy, bytesOf, decodeLossy_encode, String.ofList_toList]

theorem bytesOf_inj {s t : String} (h : bytesOf s = bytesOf t) : s = t := by
  rw [← stringLossy_bytesOf s, h, stringLossy_bytesOf]

/-! ### Bytes that break off -/

/-- Continuation bytes that are all there are read as before when more bytes follow. -/
theorem readTail_append {count n m : Nat} {low high : UInt8} {bs rest : Bytes}
    (h : readTail count low high n bs = (some m, rest)) (more : Bytes) :
    readTail count low high n (bs ++ more) = (some m, rest ++ more) := by
  induction count generalizing low high n bs with
  | zero =>
    obtain ⟨hm, rfl⟩ := Prod.mk.inj h
    exact congrArg (·, bs ++ more) hm
  | succ count ih =>
    cases bs with
    | nil => cases (Prod.mk.inj h).1
    | cons b bs =>
      rw [readTail] at h
      rw [List.cons_append, readTail]
      split at h
      · next hwithin =>
        rw [if_pos hwithin]
        exact ih h
      · cases (Prod.mk.inj h).1

theorem readChar_append {b : UInt8} {bs rest : Bytes} {c : Char}
    (h : readChar b bs = (some c, rest)) (more : Bytes) :
    readChar b (bs ++ more) = (some c, rest ++ more) := by
  unfold readChar at h ⊢
  split at h
  · next hb =>
    obtain ⟨hc, rfl⟩ := Prod.mk.inj h
    rw [if_pos hb]
    exact congrArg (·, bs ++ more) hc
  · next hb =>
    rw [if_neg hb]
    split at h
    · cases (Prod.mk.inj h).1
    · next count low high n hleader =>
      dsimp only at h ⊢
      obtain ⟨hcode, hrest⟩ := Prod.mk.inj h
      obtain ⟨m, hm, rfl⟩ := Option.map_eq_some_iff.1 hcode
      rw [readTail_append (Prod.ext hm hrest) more, Option.map_some]

/-- Bytes that are all characters begin with one, and the rest of them are characters too. -/
theorem exists_of_mapM_readChars {fuel : Nat} {b : UInt8} {bs : Bytes} {ds : List Char}
    (h : (readChars (fuel + 1) (b :: bs)).mapM id = some ds) :
    ∃ d rest es, readChar b bs = (some d, rest) ∧ (readChars fuel rest).mapM id = some es ∧
      ds = d :: es := by
  rw [readChars] at h
  dsimp only at h
  cases hfirst : readChar b bs with
  | mk first rest =>
  rw [hfirst, List.mapM_cons] at h
  cases first with
  | none => cases h
  | some d =>
    cases hothers : (readChars fuel rest).mapM id with
    | none =>
      rw [hothers] at h
      cases h
    | some es =>
      rw [hothers] at h
      exact ⟨d, rest, es, rfl, hothers, (Option.some.inj h).symm⟩

theorem of_readChars_front {fuel : Nat} {front back : Bytes} {cs ds : List Char}
    (hfuel : front.length ≤ fuel) (hread : (readChars fuel front).mapM id = some ds)
    (h : front ++ back = encode cs) : ∃ rest, cs = ds ++ rest ∧ back = encode rest := by
  induction fuel generalizing front cs ds with
  | zero =>
    obtain rfl := List.length_eq_zero_iff.1 (Nat.le_zero.1 hfuel)
    obtain rfl := Option.some.inj hread
    exact ⟨cs, rfl, h⟩
  | succ fuel ih =>
    cases front with
    | nil =>
      obtain rfl := Option.some.inj hread
      exact ⟨cs, rfl, h⟩
    | cons b bs =>
      cases cs with
      | nil => cases h
      | cons c cs =>
        obtain ⟨d, rest, es, hfirst, hothers, rfl⟩ := exists_of_mapM_readChars hread
        obtain ⟨b', bs', hbytes, hchar⟩ := readChar_encodeChar c (encode cs)
        rw [encode_cons, hbytes] at h
        obtain ⟨rfl, htail⟩ := List.cons.inj h
        -- with the rest behind it the same character is read, so it is the first of the text
        have hmore := readChar_append hfirst back
        change bs ++ back = bs' ++ encode cs at htail
        rw [htail, hchar] at hmore
        obtain ⟨hd, hrest⟩ := Prod.mk.inj hmore
        obtain rfl := Option.some.inj hd
        have hlength : rest.length ≤ fuel := by
          have hl := congrArg List.length htail
          have hr := congrArg List.length hrest
          rw [List.length_append, List.length_append] at hl
          rw [List.length_append] at hr
          rw [List.length_cons] at hfuel
          omega
        obtain ⟨tail, rfl, hback⟩ := ih hlength hothers hrest.symm
        exact ⟨tail, rfl, hback⟩

/-- The bytes in front of a break in a text are no text or the text up to the break. -/
theorem of_decode?_front {front back : Bytes} {cs ds : List Char}
    (hread : decode? front = some ds) (h : front ++ back = encode cs) :
    ∃ rest, cs = ds ++ rest ∧ back = encode rest :=
  of_readChars_front (Nat.le_refl _) hread h

/-! ### ASCII bytes -/

/-- An ASCII byte stands for its own character only. -/
theorem mem_encodeChar {c : Char} {b : UInt8} (h : b ∈ encodeChar c) :
    (b.toNat = c.toNat ∧ encodeChar c = [b]) ∨ 0x80 ≤ b.toNat := by
  have hbounds := toNat_bounds c
  have hhigh : ∀ n, 128 ≤ n → n < 256 → 0x80 ≤ n.toUInt8.toNat := by
    intro n hlow hlt
    rw [toNat_toUInt8 hlt]
    exact hlow
  -- only a character of one byte has a byte below 128
  unfold encodeChar at h ⊢
  dsimp only at h ⊢
  split at h
  · next hlt =>
    rw [List.mem_singleton.1 h, toNat_toUInt8 (by omega), if_pos hlt]
    exact .inl ⟨rfl, rfl⟩
  · refine .inr ?_
    split at h
    · simp only [List.mem_cons, List.not_mem_nil, or_false] at h
      rcases h with rfl | rfl
      · exact hhigh _ (by omega) (by omega)
      · exact hhigh _ (by omega) (by omega)
    · split at h
      · simp only [List.mem_cons, List.not_mem_nil, or_false] at h
        rcases h with rfl | rfl | rfl
        · exact hhigh _ (by omega) (by omega)
        · exact hhigh _ (by omega) (by omega)
        · exact hhigh _ (by omega) (by omega)
      · simp only [List.mem_cons, List.not_mem_nil, or_false] at h
        rcases h with rfl | rfl | rfl | rfl
        · exact hhigh _ (by omega) (by omega)
        · exact hhigh _ (by omega) (by omega)
        · exact hhigh _ (by omega) (by omega)
        · exact hhigh _ (by omega) (by omega)

/-- A text of ASCII characters has as many bytes as characters. -/
theorem length_encode_of_ascii {cs : List Char} (h : ∀ c ∈ cs, c.toNat < 0x80) :
    (encode cs).length = cs.length := by
  induction cs with
  | nil => rfl
  | cons c cs ih =>
    obtain ⟨hc, hcs⟩ := List.forall_mem_cons.1 h
    have hbytes : encodeChar c = [c.toNat.toUInt8] := if_pos hc
    rw [encode_cons, hbytes, List.singleton_append, List.length_cons, List.length_cons, ih hcs]

/-- The byte of an ASCII character stands in the bytes of a text only with the character. -/
theorem toUInt8_not_mem_encode {c : Char} (hc : c.toNat < 0x80) {cs : List Char} (h : c ∉ cs) :
    c.toNat.toUInt8 ∉ encode cs := by
  intro hmem
  obtain ⟨d, hd, hb⟩ := List.mem_flatMap.1 hmem
  have hbyte : c.toNat.toUInt8.toNat = c.toNat := toNat_toUInt8 (by omega)
  rcases mem_encodeChar hb with ⟨heq, -⟩ | hhigh
  · rw [hbyte] at heq
    have hcd : c = d := by rw [← Char.ofNat_toNat c, heq, Char.ofNat_toNat]
    exact h (hcd ▸ hd)
  · rw [hbyte] at hhigh
    exact absurd hc (Nat.not_lt.2 hhigh)

end MotifQuery.Text
