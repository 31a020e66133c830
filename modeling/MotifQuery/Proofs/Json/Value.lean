import MotifQuery.Config.Source
import MotifQuery.Proofs.Dict
import MotifQuery.Proofs.Json.Printer

/-!
# `MotifQuery.Proofs.Json.Value`: values come back from their texts

Every value is printed on one line (`newline_not_mem_compactChars`). A plain value is one
without doubles: its whole numbers fit in 64 bits and its objects list their fields by ascending
key. When a printed plain value is read at all, it is read as itself (`eq_of_value?_document`).
-/

set_option autoImplicit false

namespace MotifQuery.Json

open Number

mutual

/-- A value without doubles that a text can give. -/
def Plain : Json → Prop
  | .null => True
  | .bool _ => True
  | .int n => -(2 ^ 63) ≤ n ∧ n < 2 ^ 64
  | .float _ => False
  | .str _ => True
  | .arr items => PlainItems items
  | .obj fields => Ascending fields ∧ PlainFields fields

/-- All items are plain. -/
def PlainItems : List Json → Prop
  | [] => True
  | item :: rest => item.Plain ∧ PlainItems rest

/-- The values of all fields are plain. -/
def PlainFields : List (String × Json) → Prop
  | [] => True
  | (_, value) :: rest => value.Plain ∧ PlainFields rest

end

theorem plainItems_iff {items : List Json} : PlainItems items ↔ ∀ j ∈ items, j.Plain := by
  induction items with
  | nil => exact ⟨fun _ _ hj => (nomatch hj), fun _ => trivial⟩
  | cons item rest ih => rw [PlainItems, ih, List.forall_mem_cons]

theorem plainFields_iff {fields : List (String × Json)} :
    PlainFields fields ↔ ∀ field ∈ fields, field.2.Plain := by
  induction fields with
  | nil => exact ⟨fun _ _ hj => (nomatch hj), fun _ => trivial⟩
  | cons field rest ih => rw [PlainFields, ih, List.forall_mem_cons]

theorem plain_object {d : Dict Json} : (object d).Plain ↔ ∀ entry ∈ d.entries, entry.2.Plain :=
  ⟨fun h => plainFields_iff.1 h.2, fun h => ⟨d.ascending, plainFields_iff.2 h⟩⟩

theorem plain_ofFields {fields : List (String × Json)} (h : ∀ field ∈ fields, field.2.Plain) :
    (ofFields fields).Plain :=
  plain_object.2 fun field hfield => h field (Dict.mem_of_mem_ofList hfield)

/-- An object of texts is plain. -/
theorem plain_texts (d : Dict String) : (object (d.map .str)).Plain := by
  refine plain_object.2 fun entry hentry => ?_
  obtain ⟨_, -, rfl⟩ := List.mem_map.1 hentry
  trivial

/-! ### Numbers -/

theorem value?_intNumber_of_nonneg {n : Int} (h : 0 ≤ n) :
    (intNumber n).value? =
      if n.natAbs < 2 ^ 64 then some (.int n) else (intNumber n).double?.map .float := by
  have hsign : (intNumber n).negative = false := decide_eq_false (not_lt.2 h)
  have hvalue : digitsValue (intNumber n).whole = n.natAbs := digitsValue_natDigits _
  unfold NumberText.value?
  rw [hsign, hvalue]
  show (if n.natAbs < 2 ^ 64 then some (Json.int n.natAbs) else _) = _
  rw [Int.natAbs_of_nonneg h]

theorem value?_intNumber {n : Int} (hlow : -(2 ^ 63) ≤ n) (hhigh : n < 2 ^ 64) :
    (intNumber n).value? = some (.int n) := by
  rcases Int.lt_or_le n 0 with hneg | hpos
  · have hsign : (intNumber n).negative = true := decide_eq_true hneg
    have hvalue : digitsValue (intNumber n).whole = n.natAbs := digitsValue_natDigits _
    unfold NumberText.value?
    rw [hsign, hvalue]
    show (if n.natAbs ≠ 0 ∧ n.natAbs ≤ 2 ^ 63 then some (Json.int (-n.natAbs)) else _) = _
    rw [if_pos (by omega)]
    congr 2
    omega
  · rw [value?_intNumber_of_nonneg hpos, if_pos (by omega)]

/-- A whole number read where one without sign is asked for is the one that was written,
however large it is. -/
theorem eq_of_natural?_intNumber {m n : Nat} {j : Json} (h : (intNumber n).value? = some j)
    (hj : j.natural? = some m) : m = n := by
  rw [value?_intNumber_of_nonneg (Int.natCast_nonneg n)] at h
  split at h
  · obtain rfl := Option.some.inj h
    unfold natural? at hj
    dsimp only at hj
    rw [if_pos (Int.natCast_nonneg n)] at hj
    exact (Option.some.inj hj).symm
  · obtain ⟨x, -, rfl⟩ := Option.map_eq_some_iff.1 h
    cases hj

/-! ### Fields -/

theorem document_ofFields (fields : List (String × Json)) :
    (ofFields fields).document = .object (memberDocuments (Dict.ofList fields).entries) :=
  rfl

/-- The fields of an object are read one by one, in their order. -/
theorem keys_of_fields? {depth : Nat} {fields values : List (String × Json)}
    (h : Document.fields? depth (memberDocuments fields) = some values) :
    values.map Prod.fst = fields.map Prod.fst ∧ ∀ field ∈ fields, ∃ read,
      (field.1, read) ∈ values ∧ field.2.document.value? depth = some read := by
  induction fields generalizing values with
  | nil =>
    obtain rfl := Option.some.inj h
    exact ⟨rfl, fun field hfield => nomatch hfield⟩
  | cons first rest ih =>
    obtain ⟨key, value⟩ := first
    simp only [memberDocuments, Document.fields?] at h
    split at h
    · next read others hread hothers =>
      obtain rfl := Option.some.inj h
      obtain ⟨hkeys, hfields⟩ := ih hothers
      refine ⟨congrArg (key :: ·) hkeys, fun field hfield => ?_⟩
      rcases List.mem_cons.1 hfield with rfl | hfield
      · exact ⟨read, List.mem_cons_self, hread⟩
      · obtain ⟨read', hmem, hread'⟩ := hfields field hfield
        exact ⟨read', List.mem_cons_of_mem _ hmem, hread'⟩
    · cases h

/-- A field of a printed object that is read is read from the value of the field. -/
theorem exists_field?_of_value? {d : Dict Json} {depth : Nat} {j : Json}
    (h : (Json.object d).document.value? depth = some j) {key : String} {value : Json}
    (hvalue : d.get? key = some value) :
    ∃ read, j.field? key = some read ∧ value.document.value? (depth - 1) = some read := by
  change (Document.object (memberDocuments d.entries)).value? depth = some j at h
  rw [Document.value?] at h
  split at h
  · cases h
  · obtain ⟨values, hvalues, rfl⟩ := Option.map_eq_some_iff.1 h
    obtain ⟨hkeys, hfields⟩ := keys_of_fields? hvalues
    obtain ⟨read, hmem, hread⟩ := hfields (key, value) (Dict.mem_entries_iff.2 hvalue)
    refine ⟨read, ?_, hread⟩
    have hnodup : (values.map Prod.fst).Nodup := hkeys ▸ d.nodup_keys
    exact (Dict.get?_ofList_eq_some_iff hnodup).2 hmem

/-- An object with one field is read as one with that field. -/
theorem eq_of_value?_single {key : String} {value j : Json} {depth : Nat}
    (h : (ofFields [(key, value)]).document.value? depth = some j) :
    ∃ read, j = .obj [(key, read)] ∧ value.document.value? (depth - 1) = some read := by
  change (Document.object [(key, value.document)]).value? depth = some j at h
  simp only [Document.value?, Document.fields?] at h
  split at h
  · cases h
  · cases hread : value.document.value? (depth - 1) with
    | none => rw [hread] at h; cases h
    | some read =>
      rw [hread] at h
      obtain rfl := Option.some.inj h
      exact ⟨read, rfl, rfl⟩

/-! ### Lines -/

theorem newline_not_mem_escapeChar (c : Char) : '\n' ∉ escapeChar c := by
  have hdigits : ∀ n < 32, '\n' ∉ hexDigits 4 n := by decide
  unfold escapeChar
  split_ifs with _ _ hfeed _ _ _ _ hcontrol
  · simp
  · simp
  · simp
  · simp
  · simp
  · simp
  · simp
  · simpa using hdigits _ hcontrol
  · simpa using Ne.symm hfeed

theorem newline_not_mem_quoted (s : String) : '\n' ∉ quoted s := by
  simp [quoted, newline_not_mem_escapeChar]

theorem newline_not_mem_intChars (n : Int) : '\n' ∉ intChars n := by
  intro h
  rcases mem_intChars h with h | h
  · exact absurd h (by decide)
  · exact absurd h (by decide)

/-- A number is written with digits, signs, a point and a letter. -/
theorem newline_not_mem_number {t : NumberText} {cs : List Char}
    (h : DocumentText (.number t) cs) : '\n' ∉ cs := by
  have hdigits : ∀ {ds : List Char}, Digits ds → '\n' ∉ ds := fun hds hmem =>
    absurd (hds.2 _ hmem) (by decide)
  have hmagnitude : ∀ {ds : List Char}, MagnitudeText t ds → '\n' ∉ ds := by
    rintro _ ⟨hwhole, hfraction, hpower⟩
    have hafter : ∀ {digits fraction : List Char}, FractionText digits fraction →
        '\n' ∉ fraction := by
      rintro _ _ (_ | hds)
      · exact List.not_mem_nil
      · simp [hdigits hds]
    have hlast : ∀ {exponent : Option (Bool × List Char)} {power : List Char},
        PowerText exponent power → '\n' ∉ power := by
      rintro _ _ (_ | ⟨rfl | rfl, _ | _ | _, hds⟩)
      · exact List.not_mem_nil
      all_goals simp [hdigits hds]
    simp [hdigits hwhole.1, hafter hfraction, hlast hpower]
  cases h with
  | negative _ hcs => simp [hmagnitude hcs]
  | unsigned _ hcs => exact hmagnitude hcs

theorem newline_not_mem_jsonChars (x : Float) : '\n' ∉ jsonChars x := by
  obtain ⟨t, ht, -⟩ := exists_text_jsonChars x
  exact newline_not_mem_number ht

mutual

/-- The compact form of a value is on one line. -/
theorem newline_not_mem_compactChars : (j : Json) → '\n' ∉ compactChars j
  | .null => by decide
  | .bool true => by decide
  | .bool false => by decide
  | .int n => newline_not_mem_intChars n
  | .float x => newline_not_mem_jsonChars x
  | .str s => newline_not_mem_quoted s
  | .arr items => by
    have hitems := newline_not_mem_compactItems items
    simp [compactChars, hitems]
  | .obj fields => by
    have hfields := newline_not_mem_compactFields fields
    simp [compactChars, hfields]

theorem newline_not_mem_compactItems : (items : List Json) → '\n' ∉ compactItems items
  | [] => by simp [compactItems]
  | [item] => newline_not_mem_compactChars item
  | item :: next :: rest => by
    have hitem := newline_not_mem_compactChars item
    have hrest := newline_not_mem_compactItems (next :: rest)
    simp [compactItems, hitem, hrest]

theorem newline_not_mem_compactFields : (fields : List (String × Json)) →
    '\n' ∉ compactFields fields
  | [] => by simp [compactFields]
  | [(key, value)] => by
    have hvalue := newline_not_mem_compactChars value
    simp [compactFields, newline_not_mem_quoted, hvalue]
  | (key, value) :: next :: rest => by
    have hvalue := newline_not_mem_compactChars value
    have hrest := newline_not_mem_compactFields (next :: rest)
    simp [compactFields, newline_not_mem_quoted, hvalue, hrest]

end

/-! ### Nesting -/

mutual

/-- How deep the containers of a value nest. -/
def depth : Json → Nat
  | .arr items => depthItems items + 1
  | .obj fields => depthFields fields + 1
  | _ => 0

/-- How deep the containers of items nest. -/
def depthItems : List Json → Nat
  | [] => 0
  | item :: rest => max item.depth (depthItems rest)

/-- How deep the containers in the values of fields nest. -/
def depthFields : List (String × Json) → Nat
  | [] => 0
  | (_, value) :: rest => max value.depth (depthFields rest)

end

theorem depthFields_le {fields : List (String × Json)} {n : Nat}
    (h : ∀ field ∈ fields, field.2.depth ≤ n) : depthFields fields ≤ n := by
  induction fields with
  | nil => exact Nat.zero_le n
  | cons field rest ih =>
    obtain ⟨hfield, hrest⟩ := List.forall_mem_cons.1 h
    exact Nat.max_le.2 ⟨hfield, ih hrest⟩

theorem depth_arr_le {items : List Json} {n : Nat} (h : ∀ j ∈ items, j.depth ≤ n) :
    (arr items).depth ≤ n + 1 := by
  have hitems : depthItems items ≤ n := by
    induction items with
    | nil => exact Nat.zero_le n
    | cons item rest ih =>
      obtain ⟨hitem, hrest⟩ := List.forall_mem_cons.1 h
      exact Nat.max_le.2 ⟨hitem, ih hrest⟩
  exact Nat.succ_le_succ hitems

theorem depth_object_le {d : Dict Json} {n : Nat} (h : ∀ entry ∈ d.entries, entry.2.depth ≤ n) :
    (object d).depth ≤ n + 1 :=
  Nat.succ_le_succ (depthFields_le h)

theorem depth_ofFields_le {fields : List (String × Json)} {n : Nat}
    (h : ∀ field ∈ fields, field.2.depth ≤ n) : (ofFields fields).depth ≤ n + 1 :=
  depth_object_le fun field hfield => h field (Dict.mem_of_mem_ofList hfield)

theorem depth_texts_le (d : Dict String) : (object (d.map .str)).depth ≤ 1 := by
  refine depth_object_le fun entry hentry => ?_
  obtain ⟨_, -, rfl⟩ := List.mem_map.1 hentry
  exact Nat.le_refl 0

/-! ### Values -/

mutual

/-- A printed plain value that is read at all is read as itself. -/
theorem eq_of_value?_document : (j : Json) → j.Plain → (depth : Nat) → (k : Json) →
    j.document.value? depth = some k → k = j
  | .null, _, _, _, h => (Option.some.inj h).symm
  | .bool _, _, _, _, h => (Option.some.inj h).symm
  | .int _, hj, _, _, h => (Option.some.inj ((value?_intNumber hj.1 hj.2).symm.trans h)).symm
  | .float _, hj, _, _, _ => hj.elim
  | .str _, _, _, _, h => (Option.some.inj h).symm
  | .arr items, hj, depth, k, h => by
    simp only [document, Document.value?] at h
    split at h
    · cases h
    · obtain ⟨values, hvalues, rfl⟩ := Option.map_eq_some_iff.1 h
      -- the items one level deeper
      rw [eq_of_values?_documents items hj _ values hvalues]
  | .obj fields, hj, depth, k, h => by
    simp only [document, Document.value?] at h
    split at h
    · cases h
    · obtain ⟨values, hvalues, rfl⟩ := Option.map_eq_some_iff.1 h
      rw [eq_of_fields?_memberDocuments fields hj.2 _ values hvalues]
      show Json.obj (Dict.ofList (Dict.mk fields hj.1).entries).entries = _
      rw [Dict.ofList_entries]

theorem eq_of_values?_documents : (items : List Json) → PlainItems items → (depth : Nat) →
    (values : List Json) → Document.values? depth (documents items) = some values →
    values = items
  | [], _, _, _, h => (Option.some.inj h).symm
  | item :: rest, hj, depth, values, h => by
    simp only [documents, Document.values?] at h
    split at h
    · next value others hvalue hothers =>
      obtain rfl := Option.some.inj h
      rw [eq_of_value?_document item hj.1 _ value hvalue,
        eq_of_values?_documents rest hj.2 _ others hothers]
    · cases h

theorem eq_of_fields?_memberDocuments : (fields : List (String × Json)) → PlainFields fields →
    (depth : Nat) → (values : List (String × Json)) →
    Document.fields? depth (memberDocuments fields) = some values → values = fields
  | [], _, _, _, h => (Option.some.inj h).symm
  | (key, value) :: rest, hj, depth, values, h => by
    simp only [memberDocuments, Document.fields?] at h
    split at h
    · next value' others hvalue hothers =>
      obtain rfl := Option.some.inj h
      rw [eq_of_value?_document value hj.1 _ value' hvalue,
        eq_of_fields?_memberDocuments rest hj.2 _ others hothers]
    · cases h

end

end MotifQuery.Json
