import MotifQuery.Proofs.Json.Printer

/-!
# `MotifQuery.Proofs.Json.Distinct`: different values have different texts

The text of a value is read as its document (`Document.parse?_compact`), so it is enough that
different values have different documents (`document_inj`). A whole number has neither a
fraction nor a power of ten, and a double has one of the two, so no number of the one kind is
written like one of the other; two doubles are told apart by their signs and their decimals.
-/

set_option autoImplicit false

namespace MotifQuery.Json

open Number

theorem intNumber_inj {m n : Int} (h : intNumber m = intNumber n) : m = n := by
  obtain ⟨hsign, hdigits, -, -⟩ := NumberText.mk.inj h
  have hvalue := congrArg digitsValue hdigits
  rw [digitsValue_natDigits, digitsValue_natDigits] at hvalue
  rw [decide_eq_decide] at hsign
  omega

/-- Nothing but the double itself has its document. -/
theorem eq_of_document_float {x : Float} {j : Json} (h : j.document = (float x).document) :
    j = .float x := by
  obtain ⟨t, hdocument, -, hwrites⟩ := exists_document_float x
  rw [hdocument] at h
  cases j with
  | float y =>
    -- two doubles: sign and decimal are read off the text
    obtain ⟨u, hdocument', -, hwrites'⟩ := exists_document_float y
    rw [hdocument'] at h
    obtain rfl := Document.number.inj h
    have hsign := hwrites'.negative.symm.trans hwrites.negative
    have hdecimal := hwrites'.magnitude.symm.trans hwrites.magnitude
    rw [eq_of_sign_of_decimal hsign hdecimal]
  | int n =>
    -- a whole number has no fraction and no power, a double one of them
    have hnumber := Document.number.inj h
    exact absurd (congrArg NumberText.exponent hnumber).symm
      (hwrites.fractional (congrArg NumberText.fraction hnumber).symm)
  | null | bool b | str s | arr items | obj fields => cases h

mutual

/-- Values with one document are equal. -/
theorem document_inj : {a b : Json} → a.document = b.document → a = b
  | .float _, _, h => (eq_of_document_float h.symm).symm
  | _, .float _, h => eq_of_document_float h
  | .null, .null, _ => rfl
  | .bool _, .bool _, h => congrArg bool (Document.bool.inj h)
  | .int _, .int _, h => congrArg int (intNumber_inj (Document.number.inj h))
  | .str _, .str _, h => congrArg str (Option.some.inj (Document.string.inj h))
  | .arr _, .arr _, h => congrArg arr (documents_inj (Document.array.inj h))
  | .obj _, .obj _, h => congrArg obj (memberDocuments_inj (Document.object.inj h))

/-- Items with one row of documents are equal. -/
theorem documents_inj : {as bs : List Json} → documents as = documents bs → as = bs
  | [], [], _ => rfl
  | _ :: _, _ :: _, h =>
    let ⟨hfirst, hrest⟩ := List.cons.inj h
    congrArg₂ List.cons (document_inj hfirst) (documents_inj hrest)

/-- Fields with one row of documents are equal. -/
theorem memberDocuments_inj : {as bs : List (String × Json)} →
    memberDocuments as = memberDocuments bs → as = bs
  | [], [], _ => rfl
  | (_, _) :: _, (_, _) :: _, h =>
    let ⟨hfirst, hrest⟩ := List.cons.inj h
    let ⟨hkey, hvalue⟩ := Prod.mk.inj hfirst
    congrArg₂ List.cons (congrArg₂ Prod.mk hkey (document_inj hvalue)) (memberDocuments_inj hrest)

end

/-- Values with one text are equal. -/
theorem compact_inj {a b : Json} (h : a.compact = b.compact) : a = b := by
  have hchars : compactChars a = compactChars b := String.ofList_inj.1 h
  have hread := Document.parse?_compact a
  rw [hchars, Document.parse?_compact] at hread
  exact (document_inj (Option.some.inj hread)).symm

end MotifQuery.Json
