import MotifQuery.Proofs.Json.Value

/-!
# `MotifQuery.Proofs.Json.Meaning`: what a document spells out

`Document.Means` says which value without doubles a document spells out, whatever the order of
the members in its objects. The reader gives that value wherever containers do not nest too deep
(`Document.Means.value?`), so a text of the value is read as the value (`parse?_of_writtenAs`).
Among these texts are the printed forms (`means_document`, `writtenAs_compact`).
-/

set_option autoImplicit false

namespace MotifQuery.Json

mutual

/-- The document spells out the value, which is one without doubles. The members of an object
may stand in any order, each key once. -/
inductive Document.Means : Document → Json → Prop where
  | null : Document.Means .null .null
  | bool {b : Bool} : Document.Means (.bool b) (.bool b)
  | int {n : Int} (hlow : -(2 ^ 63) ≤ n) (hhigh : n < 2 ^ 64) :
      Document.Means (.number (intNumber n)) (.int n)
  | string {s : String} : Document.Means (.string (some s)) (.str s)
  | array {docs : List Document} {items : List Json} (h : Document.ItemsMean docs items) :
      Document.Means (.array docs) (.arr items)
  | object {members : List (String × Document)} {fields : List (String × Json)}
      (hkeys : (fields.map Prod.fst).Nodup) (h : Document.MembersMean members fields) :
      Document.Means (.object members) (ofFields fields)

/-- The documents spell out the items one by one. -/
inductive Document.ItemsMean : List Document → List Json → Prop where
  | nil : Document.ItemsMean [] []
  | cons {doc : Document} {item : Json} {docs : List Document} {items : List Json}
      (h : Document.Means doc item) (hrest : Document.ItemsMean docs items) :
      Document.ItemsMean (doc :: docs) (item :: items)

/-- The members spell out the fields one by one. -/
inductive Document.MembersMean : List (String × Document) → List (String × Json) → Prop where
  | nil : Document.MembersMean [] []
  | cons {key : String} {doc : Document} {value : Json} {members : List (String × Document)}
      {fields : List (String × Json)} (h : Document.Means doc value)
      (hrest : Document.MembersMean members fields) :
      Document.MembersMean ((key, doc) :: members) ((key, value) :: fields)

end

theorem depth_le_depthFields {fields : List (String × Json)} {field : String × Json}
    (h : field ∈ fields) : field.2.depth ≤ depthFields fields := by
  induction fields with
  | nil => cases h
  | cons first rest ih =>
    rcases List.mem_cons.1 h with rfl | h
    · exact Nat.le_max_left _ _
    · exact (ih h).trans (Nat.le_max_right _ _)

/-- Where no key stands twice, an object nests as deep as its fields. -/
theorem depthFields_lt_of_ofFields {fields : List (String × Json)} {n : Nat}
    (hkeys : (fields.map Prod.fst).Nodup) (h : (ofFields fields).depth ≤ n) :
    depthFields fields < n := by
  have hfields : depthFields fields ≤ depthFields (Dict.ofList fields).entries := by
    refine depthFields_le fun field hfield => depth_le_depthFields ?_
    exact Dict.mem_entries_iff.2 ((Dict.get?_ofList_eq_some_iff hkeys).2 hfield)
  exact Nat.lt_of_lt_of_le (Nat.lt_succ_of_le hfields) h

mutual

/-- A value that is spelled out is read where its containers nest less deep than the reader
goes. -/
theorem Document.Means.value? : {doc : Document} → {j : Json} → doc.Means j → (depth : Nat) →
    j.depth < depth → doc.value? depth = some j
  | _, _, .null, _, _ => rfl
  | _, _, .bool, _, _ => rfl
  | _, _, .int hlow hhigh, _, _ => value?_intNumber hlow hhigh
  | _, _, .string, _, _ => rfl
  | _, _, .array h, depth, hdepth => by
    rw [Json.depth] at hdepth
    rw [Document.value?, if_neg (by omega), h.values? (depth - 1) (by omega)]
    rfl
  | _, _, .object hkeys h, depth, hdepth => by
    -- no field gives way to a later one, so the object nests as deep as all that is read
    have hfields := depthFields_lt_of_ofFields hkeys (Nat.le_sub_one_of_lt hdepth)
    rw [Document.value?, if_neg (by omega), h.fields? (depth - 1) hfields]
    rfl

theorem Document.ItemsMean.values? : {docs : List Document} → {items : List Json} →
    Document.ItemsMean docs items → (depth : Nat) → depthItems items < depth →
    Document.values? depth docs = some items
  | _, _, .nil, _, _ => rfl
  | _, _, .cons h hrest, depth, hdepth => by
    rw [depthItems] at hdepth
    rw [Document.values?, h.value? depth (by omega), hrest.values? depth (by omega)]

theorem Document.MembersMean.fields? : {members : List (String × Document)} →
    {fields : List (String × Json)} → Document.MembersMean members fields → (depth : Nat) →
    depthFields fields < depth → Document.fields? depth members = some fields
  | _, _, .nil, _, _ => rfl
  | _, _, .cons h hrest, depth, hdepth => by
    rw [depthFields] at hdepth
    rw [Document.fields?, h.value? depth (by omega), hrest.fields? depth (by omega)]

end

mutual

/-- A plain value is spelled out by its document. -/
theorem means_document : (j : Json) → j.Plain → j.document.Means j
  | .null, _ => .null
  | .bool _, _ => .bool
  | .int _, hj => .int hj.1 hj.2
  | .float _, hj => hj.elim
  | .str _, _ => .string
  | .arr items, hj => .array (means_documents items hj)
  | .obj fields, hj => by
    have hobject : ofFields fields = .obj fields :=
      congrArg object (Dict.ofList_entries (Dict.mk fields hj.1))
    have hmeans := Document.Means.object hj.1.nodup_keys (means_memberDocuments fields hj.2)
    rwa [hobject] at hmeans

theorem means_documents : (items : List Json) → PlainItems items →
    Document.ItemsMean (documents items) items
  | [], _ => .nil
  | item :: rest, hj => .cons (means_document item hj.1) (means_documents rest hj.2)

theorem means_memberDocuments : (fields : List (String × Json)) → PlainFields fields →
    Document.MembersMean (memberDocuments fields) fields
  | [], _ => .nil
  | (_, value) :: rest, hj =>
    .cons (means_document value hj.1) (means_memberDocuments rest hj.2)

end

/-- A printed plain value is read as itself where its containers nest less deep than the reader
goes. -/
theorem value?_document {j : Json} (hj : j.Plain) {depth : Nat} (hdepth : j.depth < depth) :
    j.document.value? depth = some j :=
  (means_document j hj).value? depth hdepth

/-- The text writes the value, which is one without doubles. -/
def WrittenAs (j : Json) (text : List Char) : Prop :=
  ∃ doc, DocumentText doc text ∧ doc.Means j

/-- A text of a value is read as that value where its containers do not nest too deep. -/
theorem parse?_of_writtenAs {j : Json} {text : List Char} (h : j.WrittenAs text)
    (hdepth : j.depth < depthLimit) : parse? text = some j := by
  obtain ⟨doc, htext, hmeans⟩ := h
  rw [parse?, Document.parse?_of_text htext]
  exact hmeans.value? depthLimit hdepth

/-- Every plain value is written by its compact form. -/
theorem writtenAs_compact {j : Json} (hj : j.Plain) : j.WrittenAs (compactChars j) :=
  ⟨j.document, compact_text j, means_document j hj⟩

end MotifQuery.Json
