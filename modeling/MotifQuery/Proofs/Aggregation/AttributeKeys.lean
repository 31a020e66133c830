import MotifQuery.Proofs.Aggregation.Counts
import MotifQuery.Proofs.Json.Distinct

/-!
# `MotifQuery.Proofs.Aggregation.AttributeKeys`: which attribute values share a key

The key of an attribute value is a text, so a string has the key of the value that it spells
out. That is the only way in which different values share a key (`attributeKey_eq_iff`), since the
texts of values tell the values (`Json.compact_inj`). A vertex without the attribute counts as one
with `null`. Grouping by an attribute parts the bindings of an entity along these lines and no
others (`Aggregation.grouped_by_attribute`).
-/

set_option autoImplicit false

namespace MotifQuery

/-! ### Keys of values -/

/-- The first value is the string that spells out the second, which is none. -/
def SpellsOut (a b : Json) : Prop :=
  (∀ s, b ≠ .str s) ∧ a = .str b.compact

/-- The attributes are counted together: they are equal, where a missing one is as good as
`null`, or one is the string that spells out the other. -/
def CountedTogether (v w : Option Json) : Prop :=
  v.getD .null = w.getD .null ∨ SpellsOut (v.getD .null) (w.getD .null) ∨
    SpellsOut (w.getD .null) (v.getD .null)

/-- A missing attribute has the key of `null`. -/
theorem attributeKey_getD (v : Option Json) : attributeKey (some (v.getD .null)) = attributeKey v := by
  cases v <;> rfl

theorem attributeKey_of_not_str {j : Json} (h : ∀ s, j ≠ .str s) :
    attributeKey (some j) = j.compact := by
  cases j with
  | str s => exact absurd rfl (h s)
  | _ => rfl

/-- Two values share a key where they are equal or one spells out the other. -/
theorem attributeKey_some_eq_iff {a b : Json} :
    attributeKey (some a) = attributeKey (some b) ↔ a = b ∨ SpellsOut a b ∨ SpellsOut b a := by
  constructor
  · intro h
    -- strings are their own keys, other values have their texts as keys
    by_cases ha : ∃ s, a = .str s
    · obtain ⟨s, rfl⟩ := ha
      by_cases hb : ∃ t, b = .str t
      · obtain ⟨t, rfl⟩ := hb
        exact .inl (congrArg Json.str h)
      · have hb := not_exists.1 hb
        exact .inr (.inl ⟨hb, congrArg Json.str (h.trans (attributeKey_of_not_str hb))⟩)
    · have ha := not_exists.1 ha
      rw [attributeKey_of_not_str ha] at h
      by_cases hb : ∃ t, b = .str t
      · obtain ⟨t, rfl⟩ := hb
        exact .inr (.inr ⟨ha, congrArg Json.str h.symm⟩)
      · rw [attributeKey_of_not_str (not_exists.1 hb)] at h
        exact .inl (Json.compact_inj h)
  · rintro (rfl | ⟨hb, rfl⟩ | ⟨ha, rfl⟩)
    · rfl
    · exact (attributeKey_of_not_str hb).symm
    · exact attributeKey_of_not_str ha

theorem attributeKey_eq_iff {v w : Option Json} :
    attributeKey v = attributeKey w ↔ CountedTogether v w := by
  rw [← attributeKey_getD v, ← attributeKey_getD w, attributeKey_some_eq_iff]
  rfl

instance (v w : Option Json) : Decidable (CountedTogether v w) :=
  decidable_of_iff _ attributeKey_eq_iff

/-- A missing attribute is counted together with `null` and with the string `null` only. -/
theorem countedTogether_none_iff {w : Json} :
    CountedTogether none (some w) ↔ w = .null ∨ w = .str "null" := by
  constructor
  · rintro (h | ⟨-, h⟩ | ⟨-, h⟩)
    · exact .inl h.symm
    · cases h
    · exact .inr h
  · rintro (rfl | rfl)
    · exact .inl rfl
    · exact .inr (.inr ⟨nofun, rfl⟩)

/-! ### Groups of bindings -/

namespace Aggregation

/-- Grouping by an attribute counts, with every binding of an entity, all those bindings of the
entity whose host vertices have attributes that are counted together with that of its own, and
has no other keys. -/
theorem grouped_by_attribute (name : String) (seed : Nat) (attributes : Dict Json)
    (rows : List Match) : ∃ counts,
      (vertexAttribute name).apply seed attributes rows = .ok (.grouped counts) ∧
      (∀ row ∈ rows, ∀ entity host, row.get? entity = some host →
        counts.at? entity (attributeKey (attributes.get? host)) = some (rows.countP fun other =>
          (other.get? entity).any fun vertex =>
            CountedTogether (attributes.get? vertex) (attributes.get? host))) ∧
      (∀ entity key n, counts.at? entity key = some n → ∃ row ∈ rows, ∃ host,
        row.get? entity = some host ∧ attributeKey (attributes.get? host) = key) ∧
      (∀ host vertex, attributeKey (attributes.get? host) = attributeKey (attributes.get? vertex) ↔
        CountedTogether (attributes.get? host) (attributes.get? vertex)) ∧
      ∀ host vertex w, attributes.get? host = none → attributes.get? vertex = some w →
        (attributeKey (attributes.get? host) = attributeKey (attributes.get? vertex) ↔
          w = .null ∨ w = .str "null") := by
  obtain ⟨grouped, happly, hexact⟩ :=
    IsGrouping.exists_exact (a := vertexAttribute name) trivial seed attributes rows
  refine ⟨grouped, happly, fun row hrow entity host hhost => ?_, fun entity key n hn => ?_,
    fun host vertex => attributeKey_eq_iff, fun host vertex w hnone hsome => ?_⟩
  · have hcounts : (vertexAttribute name).counts attributes entity
        (attributeKey (attributes.get? host)) = fun other : Match =>
          (other.get? entity).any fun vertex =>
            decide (CountedTogether (attributes.get? vertex) (attributes.get? host)) := by
      funext other
      rw [counts]
      cases other.get? entity with
      | none => rfl
      | some vertex => simp [← attributeKey_eq_iff, Bool.beq_eq_decide_eq]
    -- the row itself counts, so the key is there
    have hpositive : 0 < rows.countP ((vertexAttribute name).counts attributes entity
        (attributeKey (attributes.get? host))) :=
      List.countP_pos_iff.2 ⟨row, hrow, by simp [counts, hhost]⟩
    rw [hexact.at?_eq, Option.filter, if_pos (decide_eq_true hpositive), hcounts]
  · rw [hexact.at?_eq, Option.filter_eq_some_iff] at hn
    obtain ⟨hcount, hpositive⟩ := hn
    rw [decide_eq_true_eq, ← Option.some.inj hcount, List.countP_pos_iff] at hpositive
    obtain ⟨row, hrow, hkey⟩ := hpositive
    rw [counts, beq_iff_eq, Option.map_eq_some_iff] at hkey
    exact ⟨row, hrow, hkey⟩
  · rw [attributeKey_eq_iff, hnone, hsome, countedTogether_none_iff]

/-- A vertex with the string `null` is counted together with one that lacks the attribute. -/
theorem grouped_by_attribute_of_null_text :
    let attributes : Dict Json := .ofList [("x", .str "null")]
    let rows : List Match := [.ofList [("A", "x")], .ofList [("A", "y")]]
    attributes.get? "x" = some (.str "null") ∧ attributes.get? "y" = none ∧ ∃ counts,
      (vertexAttribute "type").apply 0 attributes rows = .ok (.grouped counts) ∧
        counts.at? "A" "null" = some 2 := by
  exact ⟨by decide +kernel, by decide +kernel, _, rfl, by decide +kernel⟩

end Aggregation

end MotifQuery
