import MotifQuery.Cypher.Syntax
import MotifQuery.GraphML.Reader
import MotifQuery.Host.PropertyTables
import MotifQuery.Proofs.Motif.Quoted
import MotifQuery.Proofs.Number.DecimalText

/-!
# `MotifQuery.Proofs.Graph.TextValues`: what texts become as values

Attribute values and literals are written as texts. Every reader of such texts that tries a
double turns one that is not finite into `null`, so exactly the texts of `NonFinite` are erased
by it (`ReadAs`); any other text becomes a finite number, a truth value or a text. The readers
are those of the literals of motifs and of queries (`readLiteral_readAs`,
`Cypher.readValue_readAs`), of typed data (`GraphML.typedValue_readAs`) and of the cells of
tables (`Csv.cellValue_readAs`, `PropertyTables.cellValue_readAs`).
-/

set_option autoImplicit false

namespace MotifQuery

open Motif Number Text

/-- A finite number, a truth value or a text. -/
def Json.Definite : Json → Prop
  | .int _ | .bool _ | .str _ => True
  | .float x => isFinite x = true
  | .null | .arr _ | .obj _ => False

/-- The value of a text: `null` when the text is erased, and definite otherwise. -/
structure ReadAs (erased : Prop) (v : Json) : Prop where
  null : erased → v = .null
  definite : ¬ erased → v.Definite

variable {cs : List Char} {v : Json}

theorem ReadAs.of_definite {erased : Prop} (h : v.Definite) (hnot : ¬ erased) : ReadAs erased v :=
  ⟨fun herased => absurd herased hnot, fun _ => h⟩

theorem ReadAs.congr {p q : Prop} (h : ReadAs p v) (hiff : q ↔ p) : ReadAs q v :=
  ⟨fun hq => h.null (hiff.1 hq), fun hq => h.definite fun hp => hq (hiff.2 hp)⟩

/-! ### Numbers -/

theorem ofDouble_readAs {x : Float} (h : readDouble? cs = some x) :
    ReadAs (NonFinite cs) (.ofDouble x) := by
  unfold Json.ofDouble
  refine ⟨fun hnot => ?_, fun hnot => ?_⟩
  · obtain ⟨y, hy, hfinite⟩ := exists_readDouble?_iff.2 hnot
    obtain rfl : x = y := Option.some_inj.1 (h.symm.trans hy)
    rw [if_neg (by rw [hfinite]; decide)]
  · have hfinite : isFinite x = true := by
      by_contra hfinite
      exact hnot (exists_readDouble?_iff.1 ⟨x, h, Bool.not_eq_true _ ▸ hfinite⟩)
    rw [if_pos hfinite]
    exact hfinite

theorem not_nonFinite_of_none (h : readDouble? cs = none) : ¬ NonFinite cs := by
  intro hnot
  obtain ⟨x, hx, -⟩ := exists_readDouble?_iff.2 hnot
  rw [h] at hx
  cases hx

/-- A whole number is finite as a double, too. -/
theorem not_nonFinite_of_readInt64? {n : Int} (h : readInt64? cs = some n) : ¬ NonFinite cs := by
  obtain ⟨hint, hfits⟩ := Option.filter_eq_some_iff.1 h
  have hle : n.natAbs ≤ 2 ^ 64 := by
    simp [fitsInt64] at hfits
    omega
  obtain ⟨x, hx, hvalue⟩ := readDouble?_of_readInt? hint hle
  intro hnot
  obtain ⟨y, hy, hfinite⟩ := exists_readDouble?_iff.2 hnot
  obtain rfl : x = y := Option.some_inj.1 (hx.symm.trans hy)
  rw [isFinite_iff.2 ⟨_, hvalue⟩] at hfinite
  cases hfinite

/-- A text that is read as a whole number or else stays a text is never erased. -/
theorem readInt64?_readAs (raw : List Char) (s : String) :
    ReadAs False (((readInt64? raw).map .int).getD (.str s)) := by
  cases readInt64? raw <;> exact .of_definite trivial not_false

/-- A text that is read as a double or else stays a text. -/
theorem readDouble?_readAs (raw : List Char) (s : String) :
    ReadAs (NonFinite raw) (((readDouble? raw).map .ofDouble).getD (.str s)) := by
  cases h : readDouble? raw with
  | none => exact .of_definite trivial (not_nonFinite_of_none h)
  | some x => exact ofDouble_readAs h

/-! ### Literals -/

/-- Words for truth values are no numbers. -/
theorem not_nonFinite_of_word
    (h : String.ofList cs ∈ ["true", "True", "false", "False"]) : ¬ NonFinite cs := by
  have hwords : ∀ word ∈ ["true", "True", "false", "False"], readDouble? word.toList = none := by
    decide
  have hnone := hwords _ h
  rw [String.toList_ofList] at hnone
  exact not_nonFinite_of_none hnone

theorem readBareValue?_readAs (h : readBareValue? cs = some v) :
    ReadAs (NonFinite cs) v := by
  unfold readBareValue? at h
  dsimp only at h
  split at h
  · next hword =>
    cases h
    exact .of_definite trivial (not_nonFinite_of_word (by rcases hword with h | h <;> simp [h]))
  · split at h
    · next hword =>
      cases h
      exact .of_definite trivial (not_nonFinite_of_word (by rcases hword with h | h <;> simp [h]))
    · split at h
      · next n hint =>
        cases h
        exact .of_definite trivial (not_nonFinite_of_readInt64? hint)
      · obtain ⟨x, hx, rfl⟩ := Option.map_eq_some_iff.1 h
        exact ofDouble_readAs hx

/-- What stands in quotes is no number. -/
theorem not_nonFinite_of_unquote? {quote : Char} (hquote : quote = '"' ∨ quote = '\'')
    {inner : List Char} (h : unquote? quote cs = some inner) : ¬ NonFinite cs := by
  cases cs with
  | nil => cases h
  | cons c rest =>
    rw [unquote?] at h
    split at h
    · next hc =>
      rw [hc]
      exact not_nonFinite_of_none (readDouble?_quote hquote rest)
    · cases h

theorem readLiteral_readAs (h : readLiteral cs = .ok v) : ReadAs (NonFinite (trim cs)) v := by
  unfold readLiteral at h
  dsimp only at h
  split at h
  · next inner hinner =>
    cases h
    exact .of_definite trivial (not_nonFinite_of_unquote? (.inl rfl) hinner)
  · split at h
    · next inner hinner =>
      cases h
      exact .of_definite trivial (not_nonFinite_of_unquote? (.inr rfl) hinner)
    · split at h
      · next value hbare =>
        cases h
        exact readBareValue?_readAs hbare
      · cases h

namespace Cypher

/-- The text of a number with the sign before it. -/
def signedText (negative : Bool) (text : String) : List Char :=
  if negative then '-' :: text.toList else text.toList

theorem numberLiteral_readAs {negative : Bool} {text : String}
    (h : numberLiteral negative text = .ok v) :
    ReadAs (NonFinite (trim (signedText negative text))) v := by
  unfold numberLiteral at h
  split at h
  · next value hvalue =>
    cases h
    exact readLiteral_readAs hvalue
  · cases h

/-- A query literal that is no number is never erased. -/
theorem readValue_readAs {negative : Bool} {tokens rest : List Token}
    (h : readValue negative tokens = .ok (v, rest)) :
    ReadAs (∃ text, tokens = .number text :: rest ∧ NonFinite (trim (signedText negative text)))
      v := by
  -- a number may be erased; texts and words are taken as they are
  unfold readValue at h
  split at h
  · next text rest' =>
    cases hnumber : numberLiteral negative text with
    | error fault =>
      rw [hnumber] at h
      cases h
    | ok value =>
      rw [hnumber] at h
      cases h
      refine (numberLiteral_readAs hnumber).congr ?_
      simp
  · split at h
    · cases h
    · cases h
      exact .of_definite trivial (by simp)
  · next text rest' =>
    split at h
    · cases h
    · split at h
      · cases h
        exact .of_definite trivial (by simp)
      · split at h
        · cases h
          exact .of_definite trivial (by simp)
        · cases h
  · cases h

end Cypher

/-! ### Data and cells -/

/-- The types whose values are read as doubles. -/
theorem GraphML.typedValue_readAs (raw : List Char) (type : String) :
    ReadAs ((type = "float" ∨ type = "double") ∧ NonFinite (trim raw)) (typedValue raw type) := by
  unfold typedValue
  dsimp only
  split
  · next htype =>
    refine (readInt64?_readAs _ _).congr (iff_of_false ?_ not_false)
    rintro ⟨hdouble, -⟩
    rcases htype with rfl | rfl <;> simp at hdouble
  · split
    · next htype => exact (readDouble?_readAs _ _).congr (and_iff_right htype)
    · next htype =>
      have hnot : ¬ ((type = "float" ∨ type = "double") ∧ NonFinite (trim raw)) := fun h =>
        htype h.1
      split
      · split
        · exact .of_definite trivial hnot
        · split <;> exact .of_definite trivial hnot
      · exact .of_definite trivial hnot

theorem Csv.cellValue_readAs (raw : String) : ReadAs (NonFinite raw.toList) (cellValue raw) := by
  unfold cellValue
  split
  · next n hint => exact .of_definite trivial (not_nonFinite_of_readInt64? hint)
  · split
    · next x hx => exact ofDouble_readAs hx
    · next hnone =>
      have hnot := not_nonFinite_of_none hnone
      split
      · exact .of_definite trivial hnot
      · split <;> exact .of_definite trivial hnot

theorem PropertyTables.cellValue_readAs (type : Option String) (raw : String) :
    ReadAs ((type = none ∨ type = some "float" ∨ type = some "double") ∧ NonFinite raw.toList)
      (cellValue type raw) := by
  unfold cellValue
  split
  · exact (Csv.cellValue_readAs raw).congr (and_iff_right (.inl rfl))
  · next type =>
    split
    · next htype =>
      refine (readInt64?_readAs _ _).congr (iff_of_false ?_ not_false)
      rintro ⟨hdouble, -⟩
      rcases htype with rfl | rfl | rfl | rfl <;> simp at hdouble
    · split
      · next htype => exact (readDouble?_readAs _ _).congr (and_iff_right (by simpa using htype))
      · next htype =>
        have hnot : ¬ ((some type = none ∨ some type = some "float" ∨ some type = some "double")
            ∧ NonFinite raw.toList) := fun h => htype (by simpa using h.1)
        split
        · cases truthValue? raw <;> exact .of_definite trivial hnot
        · exact .of_definite trivial hnot

/-! ### All readers -/

/-- In the readers of values a text is erased exactly when it is read as a double that is not
finite: it is one of the words for that or a number beyond the range of doubles, with a sign or
without, and it is no text under its type. Every other text that is read becomes a finite
number, a truth value or a text. -/
theorem textValues_readAs (raw : String) (type : Option String) :
    (∀ v : Json, readLiteral raw.toList = .ok v → ReadAs (NonFinite (trim raw.toList)) v) ∧
    (∀ (negative : Bool) (tokens rest : List Cypher.Token) (v : Json),
      Cypher.readValue negative tokens = .ok (v, rest) →
      ReadAs (∃ text, tokens = .number text :: rest ∧
        NonFinite (trim (Cypher.signedText negative text))) v) ∧
    (∀ name : String,
      ReadAs ((name = "float" ∨ name = "double") ∧ NonFinite (trim raw.toList))
        (GraphML.typedValue raw.toList name)) ∧
    ReadAs (NonFinite raw.toList) (Csv.cellValue raw) ∧
    ReadAs ((type = none ∨ type = some "float" ∨ type = some "double") ∧ NonFinite raw.toList)
      (PropertyTables.cellValue type raw) :=
  ⟨fun _ h => readLiteral_readAs h, fun _ _ _ _ h => Cypher.readValue_readAs h,
    GraphML.typedValue_readAs raw.toList, Csv.cellValue_readAs raw,
    PropertyTables.cellValue_readAs type raw⟩

/-- A word for an infinity is erased in a cell, and not where the type is a text. -/
theorem textValues_of_infinity :
    Csv.cellValue "-Infinity" = .null ∧
      (PropertyTables.cellValue (some "string") "-Infinity").Definite := by
  have hword : NonFinite "-Infinity".toList :=
    @NonFinite.intro ['-'] "Infinity".toList true .minus (.word (by decide))
  obtain ⟨-, -, -, hcell, htyped⟩ := textValues_readAs "-Infinity" (some "string")
  exact ⟨hcell.null hword, htyped.definite (by simp)⟩

/-- Not every text becomes a finite number, a truth value or a text. -/
theorem not_forall_text_definite : ¬ ∀ raw : String, (Csv.cellValue raw).Definite := by
  intro h
  have hnull : Csv.cellValue "nan" = .null := by decide
  have hdefinite := h "nan"
  rw [hnull] at hdefinite
  exact hdefinite

end MotifQuery
