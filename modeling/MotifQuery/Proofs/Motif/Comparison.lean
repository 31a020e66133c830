import MotifQuery.Proofs.Motif.Matches
import MotifQuery.Proofs.Motif.RoundTrip
import MotifQuery.Proofs.Number.DecimalText

/-!
# `MotifQuery.Proofs.Motif.Comparison`: constraints on whole numbers

Numbers are compared as doubles. So a constraint compares the whole number of the attribute
and the one of its value after both are rounded to 53 digits, whichever way the value is given
(`Constraint.satisfiedBy_int_iff`). Rounding keeps the order, so the comparison is exact unless
two different numbers are rounded to the same one (`Constraint.relates_iff`); below `2 ^ 53`
that cannot happen (`eq_of_nearest_eq`). A match may then stand at a vertex whose id is not the
one asked for.
-/

set_option autoImplicit false

namespace MotifQuery

open Number Motif

/-! ### Orders -/

/-- Does the operator relate two whole numbers? -/
def Comparison.Relates : Comparison → Int → Int → Prop
  | eq, a, b => a = b
  | ne, a, b => a ≠ b
  | gt, a, b => b < a
  | ge, a, b => b ≤ a
  | lt, a, b => a < b
  | le, a, b => a ≤ b

instance (op : Comparison) (a b : Int) : Decidable (op.Relates a b) :=
  match op with
  | .eq => inferInstanceAs (Decidable (a = b))
  | .ne => inferInstanceAs (Decidable (a ≠ b))
  | .gt => inferInstanceAs (Decidable (b < a))
  | .ge => inferInstanceAs (Decidable (b ≤ a))
  | .lt => inferInstanceAs (Decidable (a < b))
  | .le => inferInstanceAs (Decidable (a ≤ b))

theorem Comparison.holds_compare_iff (op : Comparison) (a b : Int) :
    op.holds (compare a b) = true ↔ op.Relates a b := by
  rcases lt_trichotomy a b with h | rfl | h
  · rw [compare_lt_iff_lt.2 h]
    cases op <;> simp [holds, Relates] <;> omega
  · rw [compare_eq_iff_eq.2 rfl]
    cases op <;> simp [holds, Relates]
  · rw [compare_gt_iff_gt.2 h]
    cases op <;> simp [holds, Relates] <;> omega

theorem compare_intCast (a b : Int) : compare (a : ℚ) b = compare a b := by
  rcases lt_trichotomy a b with h | rfl | h
  · rw [compare_lt_iff_lt.2 h, compare_lt_iff_lt.2 (Int.cast_lt.2 h)]
  · rw [compare_eq_iff_eq.2 rfl, compare_eq_iff_eq.2 rfl]
  · rw [compare_gt_iff_gt.2 h, compare_gt_iff_gt.2 (Int.cast_lt.2 h)]

/-- A number beyond `2 ^ 53` is not rounded to one below. -/
theorem le_natAbs_nearest {n : Int} (h : 2 ^ 53 ≤ n.natAbs) : 2 ^ 53 ≤ (nearest n).natAbs := by
  have hle := nearestNat_mono h
  rw [nearestNat_of_le le_rfl] at hle
  unfold nearest
  split <;> omega

/-- Numbers are rounded apart when one of them is below `2 ^ 53`. -/
theorem eq_of_nearest_eq {a b : Int} (h : nearest a = nearest b)
    (hsmall : a.natAbs < 2 ^ 53 ∨ b.natAbs < 2 ^ 53) : a = b := by
  have hboth : ∀ {a b : Int}, nearest a = nearest b → a.natAbs < 2 ^ 53 → a = b := by
    intro a b h ha
    have hb : b.natAbs < 2 ^ 53 := by
      by_contra hb
      have := le_natAbs_nearest (not_lt.1 hb)
      rw [← h, nearest_of_natAbs_le ha.le] at this
      omega
    rwa [nearest_of_natAbs_le ha.le, nearest_of_natAbs_le hb.le] at h
  exact hsmall.elim (hboth h) fun hb => (hboth h.symm hb).symm

/-! ### Values -/

/-- Is it a number of 64 binary digits, with or without a sign? -/
def FitsWord (n : Int) : Prop :=
  fitsInt64 n = true ∨ fitsUInt64 n = true

theorem FitsWord.natAbs_le {n : Int} (h : FitsWord n) : n.natAbs ≤ 2 ^ 64 := by
  simp [FitsWord, fitsInt64, fitsUInt64] at h
  omega

/-- The values that a constraint may hold for a whole number: the number, or what its decimal
text is read as. -/
inductive GivenAs (n : Int) : Json → Prop where
  | number : GivenAs n (.int n)
  | text {v : Json} (h : readLiteral (intChars n) = .ok v) : GivenAs n v

theorem Json.ofDouble_of_value {x : Float} {q : ℚ} (h : value? x = some q) :
    Json.ofDouble x = .float x :=
  if_pos (isFinite_iff.2 ⟨q, h⟩)

/-- The text of a number with a sign is read as the number, one beyond them as a double. -/
theorem exists_readBareValue?_intChars {n : Int} (hn : FitsWord n) :
    ∃ value x, readBareValue? (intChars n) = some value ∧ value.double? = some x ∧
      value? x = some (nearest n : ℚ) := by
  rw [readBareValue?_of_digits fun c hc => mem_intChars hc]
  by_cases hint : fitsInt64 n = true
  · rw [readInt64?_intChars hint]
    exact ⟨_, _, rfl, rfl, value?_ofInt hn.natAbs_le⟩
  · obtain ⟨x, hx, hvalue⟩ := readDouble?_of_readInt? (readInt?_intChars n) hn.natAbs_le
    rw [readInt64?, readInt?_intChars, Option.filter_some, if_neg hint, hx]
    exact ⟨_, x, rfl, by rw [Json.ofDouble_of_value hvalue]; rfl, hvalue⟩

/-- The double of a value given for a whole number. -/
theorem GivenAs.double? {n : Int} {v : Json} (h : GivenAs n v) (hn : FitsWord n) :
    ∃ x, v.double? = some x ∧ value? x = some (nearest n : ℚ) := by
  cases h with
  | number => exact ⟨_, rfl, value?_ofInt hn.natAbs_le⟩
  | text h =>
    obtain ⟨value, x, hbare, hx, hvalue⟩ := exists_readBareValue?_intChars hn
    rw [readLiteral_of_bare (intChars_ne_nil n) (fun c hc => mem_intChars hc) hbare] at h
    cases h
    exact ⟨x, hx, hvalue⟩

namespace Constraint

variable {a b : Int} {v : Json} {name : String} {attributes : Attributes}

/-- Whole numbers are compared after rounding. -/
theorem satisfiedBy_int_iff (ha : FitsWord a) (hb : FitsWord b) (hv : GivenAs b v)
    (hget : attributes.get? name = some (.int a)) (op : Comparison) :
    satisfiedBy ⟨name, op, v⟩ attributes = true ↔ op.Relates (nearest a) (nearest b) := by
  obtain ⟨x, hx, hvalue⟩ := hv.double? hb
  have horder : orderValues? (.int a) v = some (compare (nearest a) (nearest b)) := by
    have hdoubles := orderDoubles?_of_value (value?_ofInt ha.natAbs_le) hvalue
    rw [compare_intCast] at hdoubles
    -- only numbers have doubles
    cases v <;> cases hx
    · exact hdoubles
    · exact hdoubles
  rw [satisfiedBy, hget]
  dsimp only
  rw [horder]
  exact op.holds_compare_iff _ _

/-- Rounded apart, numbers are related as they are. -/
theorem relates_nearest_iff (h : a = b ∨ nearest a ≠ nearest b) (op : Comparison) :
    op.Relates (nearest a) (nearest b) ↔ op.Relates a b := by
  rcases h with rfl | h
  · cases op <;> simp [Comparison.Relates]
  · rw [← op.holds_compare_iff, ← op.holds_compare_iff, compare_nearest h]

/-- In a match the constrained vertex has a number that is rounded to the one asked for. -/
theorem nearest_eq_of_match (ha : FitsWord a) (hb : FitsWord b) (hv : GivenAs b v) {m : Motif}
    {g : HostGraph} {found : Match} {x : String} {w : Vertex} (hm : m.WellFormed)
    (hg : g.Coherent) (hfound : found ∈ m.find g) (hc : ⟨name, .eq, v⟩ ∈ m.constraintsOn x)
    (hw : w ∈ g.vertices) (hx : found.get? x = some w.id)
    (hget : w.attributes.get? name = some (.int a)) : nearest a = nearest b := by
  obtain ⟨w', hw', hid, hall⟩ := ((mem_find_iff hg hm).1 hfound).vertices x w.id hx
  obtain rfl : w' = w := List.inj_on_of_nodup_map hg.nodup_ids (Array.mem_toList_iff.2 hw')
    (Array.mem_toList_iff.2 hw) hid
  exact (satisfiedBy_int_iff ha hb hv hget .eq).1 (hall _ hc)

/-- A constraint with a whole number of 64 digits, on an attribute that is one, compares the
numbers as they are rounded to 53 digits. So it is exact for every operator when they are equal
or not rounded to the same number, as when one of them is below `2 ^ 53`, and not otherwise.
A match stands at a vertex whose number is rounded to the same one as that asked for. -/
theorem satisfiedBy_exact_iff (ha : FitsWord a) (hb : FitsWord b) (hv : GivenAs b v)
    (name : String) :
    (∀ (op : Comparison) (attributes : Attributes), attributes.get? name = some (.int a) →
      (satisfiedBy ⟨name, op, v⟩ attributes = true ↔ op.Relates (nearest a) (nearest b))) ∧
    ((∀ (op : Comparison) (attributes : Attributes), attributes.get? name = some (.int a) →
        (satisfiedBy ⟨name, op, v⟩ attributes = true ↔ op.Relates a b)) ↔
      a = b ∨ nearest a ≠ nearest b) ∧
    (a.natAbs < 2 ^ 53 ∨ b.natAbs < 2 ^ 53 → a = b ∨ nearest a ≠ nearest b) ∧
    (∀ (m : Motif) (g : HostGraph) (found : Match) (x : String) (w : Vertex), Parsed m →
      g.Coherent → found ∈ m.find g → ⟨name, .eq, v⟩ ∈ m.constraintsOn x → w ∈ g.vertices →
      found.get? x = some w.id → w.attributes.get? name = some (.int a) →
      nearest a = nearest b) := by
  refine ⟨fun op attributes hget => satisfiedBy_int_iff ha hb hv hget op,
    ⟨fun h => ?_, fun h => ?_⟩, fun h => ?_, fun m g found x w hm hg hfound hc hw hx hget =>
      nearest_eq_of_match ha hb hv hm.wellFormed hg hfound hc hw hx hget⟩
  · -- one attribute shows what `==` finds equal
    have hget : (Dict.ofList [(name, Json.int a)]).get? name = some (.int a) := by
      have hnodup : ([(name, Json.int a)].map Prod.fst).Nodup := List.nodup_singleton name
      exact (Dict.get?_ofList_eq_some_iff hnodup).2 (List.mem_singleton.2 rfl)
    have hexact := h .eq _ hget
    rw [satisfiedBy_int_iff ha hb hv hget] at hexact
    by_cases heq : nearest a = nearest b
    · exact .inl (hexact.1 heq)
    · exact .inr heq
  · intro op attributes hget
    rw [satisfiedBy_int_iff ha hb hv hget, relates_nearest_iff h]
  · by_cases heq : nearest a = nearest b
    · exact .inl (eq_of_nearest_eq heq h)
    · exact .inr heq

/-- Two ids beyond `2 ^ 53` that are rounded apart are told apart. -/
theorem satisfiedBy_exact_of_ids :
    satisfiedBy ⟨"id", .eq, .int 9007199254740992⟩ (Dict.ofList [("id", .int 9007199254740994)])
      = false := by
  have hget : (Dict.ofList [("id", Json.int 9007199254740994)]).get? "id"
      = some (.int 9007199254740994) := by decide
  have hexact := ((@satisfiedBy_exact_iff 9007199254740994 9007199254740992 _ (.inl (by decide))
    (.inl (by decide)) .number "id").2.1.2 (.inr (by decide))) .eq _ hget
  exact Bool.eq_false_iff.2 fun h => absurd (hexact.1 h) (by decide)

/-- Not every comparison of whole numbers is exact. -/
theorem not_forall_satisfiedBy_exact :
    ¬ ∀ (a b : Int) (v : Json) (op : Comparison) (name : String) (attributes : Attributes),
      FitsWord a → FitsWord b → GivenAs b v → attributes.get? name = some (.int a) →
      (satisfiedBy ⟨name, op, v⟩ attributes = true ↔ op.Relates a b) := by
  intro h
  have hexact := h 9007199254740992 9007199254740993 _ .eq "id"
    (Dict.ofList [("id", .int 9007199254740992)]) (.inl (by decide)) (.inl (by decide))
    .number (by decide)
  exact absurd (hexact.1 (by decide)) (by decide)

end Constraint

end MotifQuery
