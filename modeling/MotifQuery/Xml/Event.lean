import MotifQuery.Number.Integer
import MotifQuery.Text.Utf8

/-!
# `MotifQuery.Xml.Event`: XML as a row of events

An XML document is a row of events: tags that open, close or stand alone, text, character
data, and the rest, which carries no content. The names in opening and standing tags are
kept with their attributes; attributes that are not well formed, and text with an entity
that is none, are marked by `none`, because only a reader that needs them refuses them.

`unescape?` resolves the five named entities and character references; `escape` writes
the five named entities.
-/

set_option autoImplicit false

namespace MotifQuery.Xml

open Text Number

/-- The attributes of a tag in order, or `none` when they are not well formed. -/
abbrev AttributeList := Option (List (String × String))

/-- A piece of an XML document. -/
inductive Event where
  /-- An opening tag. -/
  | opening (name : String) (attributes : AttributeList)
  /-- A tag without content. -/
  | standing (name : String) (attributes : AttributeList)
  /-- A closing tag. -/
  | closing (name : String)
  /-- Text, `none` when it is not well formed. -/
  | text (content : Option String)
  /-- Character data, taken as it stands. -/
  | data (content : String)
  /-- The declaration of version and encoding. -/
  | declaration
  /-- A comment, a processing instruction or a document type. -/
  | remark
deriving DecidableEq

/-- The character that an entity name stands for. -/
def namedEntity? (name : List Char) : Option Char :=
  let s := String.ofList name
  if s = "lt" then some '<'
  else if s = "gt" then some '>'
  else if s = "amp" then some '&'
  else if s = "apos" then some '\''
  else if s = "quot" then some '"'
  else none

/-- The character with a code point; there is none with the code point zero. -/
def charOfCode? (n : Nat) : Option Char :=
  if n ≠ 0 ∧ n.isValidChar then some (Char.ofNat n) else none

/-- The character of a reference: decimal digits, at most seven, or `x` and hexadecimal
digits, at most six. -/
def referencedChar? : List Char → Option Char
  | 'x' :: digits => if digits.length ≤ 6 then (readHex? digits).bind charOfCode? else none
  | digits => if digits.length ≤ 7 then (readNat? digits).bind charOfCode? else none

/-- The character that stands for an entity, given what is between `&` and `;`. -/
def entity? : List Char → Option Char
  | '#' :: reference => referencedChar? reference
  | name => namedEntity? name

/-- Replaces entities; `name` holds the reversed name of the entity that is being read. -/
def unescapeFrom : Option (List Char) → List Char → Option (List Char)
  | none, [] => some []
  | some _, [] => none
  | none, c :: cs =>
    if c = '&' then unescapeFrom (some []) cs else (unescapeFrom none cs).map (c :: ·)
  | some name, c :: cs =>
    if c = ';' then
      match entity? name.reverse with
      | some d => (unescapeFrom none cs).map (d :: ·)
      | none => none
    else if c = '&' then none
    else unescapeFrom (some (c :: name)) cs

/-- Replaces the entities of a text. -/
def unescape? (cs : List Char) : Option (List Char) :=
  unescapeFrom none cs

/-- A character in text and in attribute values. -/
def escapeChar (c : Char) : List Char :=
  if c = '<' then ['&', 'l', 't', ';']
  else if c = '>' then ['&', 'g', 't', ';']
  else if c = '&' then ['&', 'a', 'm', 'p', ';']
  else if c = '\'' then ['&', 'a', 'p', 'o', 's', ';']
  else if c = '"' then ['&', 'q', 'u', 'o', 't', ';']
  else [c]

/-- A text with entities for the special characters. -/
def escape (cs : List Char) : List Char :=
  cs.flatMap escapeChar

end MotifQuery.Xml
