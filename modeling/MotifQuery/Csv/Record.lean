import MotifQuery.Text.Blank
import MotifQuery.Text.Utf8

/-!
# `MotifQuery.Csv.Record`: records of comma-separated text

Records end at a line feed, a carriage return or both; empty lines are none. Fields are
parted by commas. A field that starts with a quote runs to the closing quote, a doubled
quote inside stands for one, and what follows the closing quote belongs to the field as it
is. Blanks around a field are removed. A table has a header; every record must have as
many fields as it, and all text must be UTF-8.
-/

set_option autoImplicit false

namespace MotifQuery.Csv

open Text

/-- Where the reader stands in a field. -/
inductive Place where
  /-- At the start of a field. -/
  | start
  /-- Inside a field without quotes, or after the closing quote. -/
  | plain
  /-- Inside quotes. -/
  | quoted
  /-- After a quote inside quotes. -/
  | closing
deriving DecidableEq

/-- Is the byte a line feed or a carriage return? -/
def endsLine (b : UInt8) : Bool :=
  b == 0x0A || b == 0x0D

/-- Reads records; `fields` and `field` are the fields and the field read so far, each
reversed, and `fresh` is set when nothing of the record has been read. -/
def readRecords : Place → Bool → List Bytes → Bytes → Bytes → List (List Bytes)
  | _, fresh, fields, field, [] =>
    if fresh then [] else [(field.reverse :: fields).reverse]
  | place, fresh, fields, field, b :: bs =>
    let close := (field.reverse :: fields).reverse
    match place with
    | .quoted =>
      if b == 0x22 then readRecords .closing false fields field bs
      else readRecords .quoted false fields (b :: field) bs
    | .start =>
      if b == 0x22 then readRecords .quoted false fields field bs
      else if b == 0x2C then readRecords .start false (field.reverse :: fields) [] bs
      else if endsLine b then
        -- an empty line is no record
        if fresh then readRecords .start true [] [] bs
        else close :: readRecords .start true [] [] bs
      else readRecords .plain false fields (b :: field) bs
    | .plain =>
      if b == 0x2C then readRecords .start false (field.reverse :: fields) [] bs
      else if endsLine b then close :: readRecords .start true [] [] bs
      else readRecords .plain false fields (b :: field) bs
    | .closing =>
      -- a doubled quote stands for one
      if b == 0x22 then readRecords .quoted false fields (b :: field) bs
      else if b == 0x2C then readRecords .start false (field.reverse :: fields) [] bs
      else if endsLine b then close :: readRecords .start true [] [] bs
      -- what follows the closing quote belongs to the field
      else readRecords .plain false fields (b :: field) bs

/-- The records of a text. -/
def records (bs : Bytes) : List (List Bytes) :=
  readRecords .start true [] [] (dropByteOrderMark bs)

/-- The fields of a record as trimmed texts, when all are UTF-8. -/
def fieldTexts? (record : List Bytes) : Option (List String) :=
  record.mapM fun field => (decode? field).map fun cs => String.ofList (trim cs)

/-- A header and records of its length. A record that is not well formed ends the
table. -/
structure Table where
  header : List String
  rows : List (List String)
  malformed : Bool
deriving DecidableEq

/-- The rows up to the first that is not well formed. -/
def readRows (width : Nat) : List (List Bytes) → List (List String) × Bool
  | [] => ([], false)
  | record :: rest =>
    match fieldTexts? record with
    | some row =>
      if row.length = width then
        let (rows, malformed) := readRows width rest
        (row :: rows, malformed)
      else ([], true)
    | none => ([], true)

/-- The table of a text; `none` when its header is not UTF-8. -/
def readTable? (bs : Bytes) : Option Table :=
  match records bs with
  | [] => some ⟨[], [], false⟩
  | first :: rest =>
    match fieldTexts? first with
    | none => none
    | some header =>
      let (rows, malformed) := readRows header.length rest
      some ⟨header, rows, malformed⟩

end MotifQuery.Csv
