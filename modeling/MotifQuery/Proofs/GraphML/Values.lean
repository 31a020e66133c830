import MotifQuery.GraphML.Reader
import MotifQuery.GraphML.Writer
import MotifQuery.Proofs.Graph.Columns
import MotifQuery.Proofs.Number.Integer
import MotifQuery.Proofs.Text.Trim

/-!
# `MotifQuery.Proofs.GraphML.Values`: values written and read back

A value is written as text and read back under the type of its column. `settled` says what
becomes of it: it stays in a column of whole numbers or of truth values, anywhere else it
turns into its text without the blanks around it. `typedValue_eq_settled` is the main
result.
-/

set_option autoImplicit false

namespace MotifQuery.GraphML

open Text Number

/-- All values have the type. -/
def Uniform (values : List Json) (type : ValueType) : Prop :=
  ∀ value ∈ values, ValueType.of? value = some type

instance (values : List Json) (type : ValueType) : Decidable (Uniform values type) :=
  inferInstanceAs (Decidable (∀ value ∈ values, ValueType.of? value = some type))

/-- What a value of a column becomes when it is written and read back. -/
def settled (values : List Json) (value : Json) : Json :=
  if Uniform values .int ∨ Uniform values .bool then value else .str (trimmed (valueText value))

/-- Is the value neither a double nor a whole number beyond 64 bits? -/
def isPortable : Json → Bool
  | .float _ => false
  | .int n => fitsInt64 n
  | _ => true

/-! ### Values under the types that are written -/

theorem typedValue_string (raw : List Char) :
    typedValue raw "string" = .str (String.ofList (trim raw)) := by
  unfold typedValue
  dsimp only
  rw [if_neg (by decide), if_neg (by decide), if_neg (by decide)]

theorem trim_intChars (n : Int) : trim (intChars n) = intChars n := by
  have hblank : (intChars n).all (fun c => !isBlank c) = true := by
    refine List.all_eq_true.2 fun c hc => ?_
    rcases mem_intChars hc with rfl | hdigit
    · rfl
    · have hbounds : 48 ≤ c.toNat ∧ c.toNat ≤ 57 := by
        rw [isAsciiDigit, Bool.and_eq_true, decide_eq_true_eq, decide_eq_true_eq] at hdigit
        exact hdigit
      simp only [isBlank, Bool.not_eq_true', Bool.or_eq_false_iff, Bool.and_eq_false_iff,
        decide_eq_false_iff_not, beq_eq_false_iff_ne]
      omega
  exact (tight_of_all (intChars_ne_nil n) hblank).trim_eq

theorem typedValue_long {raw : List Char} {n : Int} (hraw : trim raw = intChars n)
    (h : fitsInt64 n = true) : typedValue raw "long" = .int n := by
  unfold typedValue
  dsimp only
  rw [if_pos (.inr rfl), hraw, readInt64?_intChars h]
  rfl

theorem typedValue_boolean {raw : List Char} {b : Bool}
    (hraw : trim raw = (Json.compactChars (.bool b))) : typedValue raw "boolean" = .bool b := by
  unfold typedValue
  dsimp only
  rw [if_neg (by decide), if_neg (by decide), if_pos rfl, hraw]
  cases b <;> decide

/-! ### Values of a column -/

section
variable {values : List Json} {value : Json} {type : Option ValueType}

/-- A column is uniform in a type exactly when its schema says so. -/
theorem uniform_iff (htype : Schema.columnType values = some type) (hmem : value ∈ values)
    (t : ValueType) : Uniform values t ↔ type = some t := by
  have hne : values ≠ [] := List.ne_nil_of_mem hmem
  rw [← Option.some_inj (a := type), ← htype, Schema.columnType_eq_some_iff]
  exact ⟨fun h => ⟨hne, h⟩, fun h => h.2⟩

/-- In a column of strings, and in one whose type is open, a value turns into text. -/
theorem settled_of_string (htype : Schema.columnType values = some type) (hmem : value ∈ values)
    (hint : type ≠ some .int) (hbool : type ≠ some .bool) :
    settled values value = .str (trimmed (valueText value)) := by
  refine if_neg (not_or.2 ⟨?_, ?_⟩)
  · rw [uniform_iff htype hmem]
    exact hint
  · rw [uniform_iff htype hmem]
    exact hbool

/-- A value of a column is read back as what it settles to, under the type of the column
and with any blanks around it. -/
theorem typedValue_eq_settled (htype : Schema.columnType values = some type)
    (hmem : value ∈ values) (hportable : isPortable value = true) {raw : List Char}
    (hraw : trim raw = trim (valueText value).toList) :
    typedValue raw (typeName type) = settled values value := by
  have htext : typedValue raw "string" = .str (trimmed (valueText value)) := by
    rw [typedValue_string, hraw]
    rfl
  cases type with
  | none =>
    rw [settled_of_string htype hmem (by simp) (by simp)]
    exact htext
  | some t =>
    have huniform : Uniform values t := (uniform_iff htype hmem t).2 rfl
    have hof : ValueType.of? value = some t := huniform value hmem
    -- the type of the column leaves one kind of value
    cases t with
    | str =>
      rw [settled_of_string htype hmem (by simp) (by simp)]
      exact htext
    | int =>
      have hstay : settled values value = value := if_pos (.inl huniform)
      cases value with
      | int n =>
        have hchars : trim raw = intChars n := by
          rw [hraw, ← trim_intChars n]
          exact congrArg trim (String.toList_ofList)
        rw [hstay]
        exact typedValue_long hchars hportable
      | _ => cases hof
    | bool =>
      have hstay : settled values value = value := if_pos (.inr huniform)
      cases value with
      | bool b =>
        have hchars : trim raw = Json.compactChars (.bool b) := by
          rw [hraw]
          cases b <;> decide
        rw [hstay]
        exact typedValue_boolean hchars
      | _ => cases hof
    | float =>
      cases value with
      | float x => cases hportable
      | _ => cases hof

end

end MotifQuery.GraphML
