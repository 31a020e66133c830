import MotifQuery.Proofs.Host.Uploads
import MotifQuery.Proofs.Json.Value
import MotifQuery.Proofs.Time.Calendar

/-!
# `MotifQuery.Proofs.Host.Table`: the table of uploads read back

The record of an upload is written as an object and read back as that record
(`UploadRecord.read?_document`), provided its size fits in 64 bits and the calendar reaches its
instants (`UploadRecord.Readable`). So a table of such records is read back as those records
(`UploadHost.readTable?_tableText`), and a directory that has the table of a host and the files of
its records gives the records of the host (`UploadHost.loadRecords_of_tabled`).
-/

set_option autoImplicit false

namespace MotifQuery

/-! ### Fields of a document -/

theorem lookupEntry_map {α β : Type} (f : α → β) (key : String) (entries : List (String × α)) :
    lookupEntry key (entries.map fun entry => (entry.1, f entry.2))
      = (lookupEntry key entries).map f := by
  induction entries with
  | nil => rfl
  | cons entry rest ih =>
    rw [List.map_cons, lookupEntry, lookupEntry, ih]
    split <;> rfl

/-- A key that never repeats picks one entry or none. -/
theorem filter_key_eq {α : Type} {entries : List (String × α)}
    (h : (entries.map Prod.fst).Nodup) (key : String) :
    entries.filter (fun entry => entry.1 == key)
      = ((lookupEntry key entries).map fun value => (key, value)).toList := by
  induction entries with
  | nil => rfl
  | cons entry rest ih =>
    obtain ⟨first, value⟩ := entry
    obtain ⟨hfirst, hrest⟩ := List.nodup_cons.1 h
    rw [List.filter_cons, lookupEntry]
    by_cases hkey : first = key
    · subst hkey
      have hnone : lookupEntry first rest = none := lookupEntry_eq_none_iff.2 hfirst
      rw [if_pos (beq_self_eq_true _), if_pos rfl, ih hrest, hnone]
      rfl
    · rw [if_neg (by simpa using hkey), if_neg (Ne.symm hkey), ih hrest]

namespace Json

theorem memberDocuments_eq_map (fields : List (String × Json)) :
    memberDocuments fields = fields.map fun field => (field.1, field.2.document) := by
  induction fields with
  | nil => rfl
  | cons field rest ih => exact congrArg ((field.1, field.2.document) :: ·) ih

/-- The fields of a printed object are found by name. -/
theorem fields?_document_object (names : List String) (d : Dict Json) :
    Document.source.fields? names (object d).document
      = some (names.map fun name => (d.get? name).map document) := by
  have hnodup : ((memberDocuments d.entries).map Prod.fst).Nodup := by
    rw [memberDocuments_eq_map, List.map_map]
    exact d.nodup_keys
  show Source.pick? names (memberDocuments d.entries) = _
  unfold Source.pick?
  induction names with
  | nil => rfl
  | cons name rest ih =>
    rw [List.mapM_cons, ih, filter_key_eq hnodup, memberDocuments_eq_map, lookupEntry_map]
    show _ = some ((Option.map document (lookupEntry name d.entries)) :: _)
    cases lookupEntry name d.entries <;> rfl

end Json

/-! ### Records -/

namespace UploadRecord

/-- What a record holds can be written and read back. -/
structure Readable (u : UploadRecord) : Prop where
  size : u.size < 2 ^ 64
  created : Instant.InCalendar u.createdAt
  expires : Instant.InCalendar u.expiresAt

theorem text?_document (s : String) :
    Json.Document.source.text? (Json.str s).document = some s :=
  rfl

theorem instant?_document {t : Instant} (h : Instant.InCalendar t) :
    instant? (Json.str t.text).document = some t := by
  show (some t.text).bind (fun text => Instant.read? text.toList) = some t
  rw [Option.bind_some]
  exact Instant.read?_text h

theorem natural?_document {n : Nat} (h : n < 2 ^ 64) :
    Json.Document.source.natural? (Json.nat n).document = some n := by
  show (Json.intNumber n).value?.bind Json.natural? = _
  rw [Json.value?_intNumber (by omega) (by omega), Option.bind_some]
  show (if (0 : Int) ≤ n then some (n : Int).toNat else none) = some n
  rw [if_pos (Int.natCast_nonneg n), Int.toNat_natCast]

/-- A record is read back. -/
theorem read?_document {u : UploadRecord} (h : u.Readable) :
    read? u.toJson.document = some u := by
  have hfields : Json.Document.source.fields?
      ["temp_id", "filepath", "original_filename", "file_size", "created_at", "expires_at"]
      u.toJson.document
      = some [some (Json.str u.id).document, some (Json.str u.path).document,
          some (Json.str u.givenName).document, some (Json.nat u.size).document,
          some (Json.str u.createdAt.text).document, some (Json.str u.expiresAt.text).document] := by
    rw [toJson, Json.ofFields, Json.fields?_document_object]
    simp only [List.map_cons, List.map_nil, Dict.get?_ofList]
    rfl
  unfold read?
  dsimp only
  rw [hfields]
  simp only [Source.require, Option.bind_eq_bind, Option.bind_some, text?_document,
    natural?_document h.size, instant?_document h.created, instant?_document h.expires]
  rfl

end UploadRecord

/-! ### Tables -/

namespace UploadHost

/-- The text of a table. -/
def tableText (records : Dict UploadRecord) : String :=
  (Json.object (records.map UploadRecord.toJson)).indented

/-- A table is read back. -/
theorem readTable?_tableText {records : Dict UploadRecord}
    (h : ∀ id u, records.get? id = some u → u.Readable) :
    readTable? (tableText records) = some records := by
  have hmembers : Json.memberDocuments (records.map UploadRecord.toJson).entries
      = (records.map fun u => u.toJson.document).entries := by
    rw [Json.memberDocuments_eq_map]
    exact List.map_map
  unfold readTable? tableText
  rw [Json.indented, String.toList_ofList, Json.Document.parse?_indented]
  show ((Json.memberDocuments (records.map UploadRecord.toJson).entries).mapM fun m =>
    (UploadRecord.read? m.2).map fun a => (m.1, a)).map Dict.ofList = some records
  have hread : ∀ entry ∈ records.entries,
      UploadRecord.read? entry.2.toJson.document = some entry.2 := fun entry hentry =>
    UploadRecord.read?_document (h entry.1 entry.2 (Dict.mem_entries_iff.1 hentry))
  rw [hmembers, Dict.mapM_entries_map (f := fun u => u.toJson.document) (g := UploadRecord.read?)
    hread, Option.map_some, Dict.ofList_entries]

/-- A directory that has the table of a host and the files of its records gives the records. -/
theorem loadRecords_of_tabled {h : UploadHost} {d : Disk} (htable : h.Tabled d)
    (hread : ∀ id u, h.records.get? id = some u → u.Readable)
    (hfiles : ∀ id u, h.records.get? id = some u → d.contains u.path = true) :
    loadRecords d h.directory = h.records := by
  have hrecords : (d.readText (tablePath h.directory)).toOption.bind readTable?
      = some h.records := by
    rw [Disk.readText_of_lookup htable]
    exact readTable?_tableText hread
  rw [loadRecords, hrecords]
  refine Dict.ext_get? fun id => ?_
  rw [Dict.get?_filter]
  cases hu : h.records.get? id with
  | none => rfl
  | some u => rw [Option.filter_some, hfiles id u hu, if_pos rfl]

/-- A directory without a table gives no records. -/
theorem loadRecords_of_no_table {d : Disk} {directory : String}
    (h : ∀ node, d.lookup (tablePath directory) ≠ .ok node) : loadRecords d directory = ∅ := by
  have hread : (d.readText (tablePath directory)).toOption = none := by
    cases hlookup : d.lookup (tablePath directory) with
    | ok node => exact absurd hlookup (h node)
    | error fault =>
      unfold Disk.readText Disk.read
      rw [hlookup]
      rfl
  unfold loadRecords
  rw [hread]
  rfl

end UploadHost

end MotifQuery
