import MotifQuery.Xml.Event

/-!
# `MotifQuery.Xml.Reader`: events of a document

`readEvents` cuts bytes into events. Text loses the blanks around it and is no event when
nothing is left. Opening and closing tags must pair; a document may end with tags open,
and a last tag or text that breaks off counts as far as it goes, unless the bytes
themselves broke off before their end. What comes before a fault is still read.
-/

set_option autoImplicit false

namespace MotifQuery.Xml

open Text

/-- The events of a document, and whether a fault ended them. -/
structure Reading where
  events : List Event
  malformed : Bool
deriving DecidableEq

/-- Puts an event before the others. -/
def Reading.cons (e : Event) (r : Reading) : Reading :=
  { r with events := e :: r.events }

/-- The byte of an ASCII character. -/
def byte (c : Char) : UInt8 :=
  c.toNat.toUInt8

/-- The blanks of the markup. -/
def isSpace (b : UInt8) : Bool :=
  b == 0x20 || b == 0x0D || b == 0x0A || b == 0x09

/-- The ASCII blanks, form feed included. -/
def isAsciiBlank (b : UInt8) : Bool :=
  isSpace b || b == 0x0C

/-- Drops bytes at the end. -/
def dropEnd (p : UInt8 → Bool) (bs : Bytes) : Bytes :=
  (bs.reverse.dropWhile p).reverse

/-- The bytes before and after the first occurrence of a byte; without one, all and
`none`. -/
def cutAt (b : UInt8) (bs : Bytes) : Bytes × Option Bytes :=
  match bs.dropWhile (· != b) with
  | [] => (bs, none)
  | _ :: rest => (bs.takeWhile (· != b), some rest)

/-- The bytes of a tag up to the `>` outside quotes. -/
def cutTag : Option UInt8 → Bytes → Bytes × Option Bytes
  | _, [] => ([], none)
  | quote, b :: bs =>
    let next := match quote with
      | none => if b == byte '"' || b == byte '\'' then some b else none
      | some q => if b == q then none else quote
    if quote.isNone && b == byte '>' then ([], some bs)
    else
      let (taken, rest) := cutTag next bs
      (b :: taken, rest)

/-- The bytes up to the first `>` before which the bytes read so far, reversed, satisfy the
condition. -/
def cutWhen (done : Bytes → Bool) : Bytes → Bytes → Option (Bytes × Bytes)
  | _, [] => none
  | seen, b :: bs =>
    if b == byte '>' && done seen then some (seen.reverse, bs)
    else cutWhen done (b :: seen) bs

/-- Does a comment end here? It holds `!--` and `--` at least. -/
def endsComment (seen : Bytes) : Bool :=
  5 ≤ seen.length && [byte '-', byte '-'].isPrefixOf seen

/-- Does character data end here? -/
def endsData (seen : Bytes) : Bool :=
  [byte ']', byte ']'].isPrefixOf seen

/-- Does a document type end here? Its angle brackets balance. -/
def endsDoctype (seen : Bytes) : Bool :=
  seen.countP (· == byte '<') == seen.countP (· == byte '>')

/-- Do the bytes start with a word, in any case of its letters? -/
def startsWithWord (word : String) (bs : Bytes) : Bool :=
  let letters := word.toList
  (bs.take letters.length).map (fun b => lowerAscii (Char.ofNat b.toNat)) ==
    letters.map lowerAscii

/-- Reads a tag that starts with `!`; the bytes start there. -/
def readBang (bs : Bytes) : Option (Event × Bytes) :=
  match bs.tail.head? with
  | none => none
  | some b =>
    if b == byte '[' then
      match cutWhen endsData [] bs with
      | some (taken, rest) =>
        if startsWithWord "![CDATA[" taken then
          some (.data (stringLossy ((taken.drop 8).take (taken.length - 10))), rest)
        else none
      | none => none
    else if b == byte '-' then
      match cutWhen endsComment [] bs with
      | some (taken, rest) => if startsWithWord "!--" taken then some (.remark, rest) else none
      | none => none
    else if b == byte 'D' || b == byte 'd' then
      match cutWhen endsDoctype [] bs with
      | some (taken, rest) =>
        if startsWithWord "!DOCTYPE" taken && (taken.drop 8).any (fun b => !isSpace b) then
          some (.remark, rest)
        else none
      | none => none
    else none

/-- The name in a closing tag without the blanks after it, unless it is all blank. -/
def closingName (bs : Bytes) : Bytes :=
  -- blanks before the name belong to it, so such a tag closes nothing
  let name := dropEnd isAsciiBlank bs
  if name.isEmpty then bs else name

/-- The event of a processing instruction, given the bytes from its `?` on. -/
def questionEvent? (bs : Bytes) : Option Event :=
  if 2 < bs.length && bs.getLast? == some (byte '?') then some .remark else none

/-- Reads the value of an attribute after the equals sign. -/
def readAttributeValue? (bs : Bytes) : Option (Bytes × Bytes) :=
  match bs.dropWhile isSpace with
  | [] => none
  | quote :: rest =>
    if quote == byte '"' || quote == byte '\'' then
      match cutAt quote rest with
      | (value, some rest) => some (value, rest)
      | (_, none) => none
    else none

/-- Reads attributes one after the other; no key stands twice. -/
def readAttributes : Nat → List Bytes → Bytes → AttributeList
  | 0, _, _ => some []
  | fuel + 1, seen, bs =>
    match bs.dropWhile isSpace with
    | [] => some []
    | b :: rest =>
      let inKey (b : UInt8) : Bool := !(b == byte '=' || isSpace b)
      let key := b :: rest.takeWhile inKey
      match (rest.dropWhile inKey).dropWhile isSpace with
      | [] => none
      | mark :: rest =>
        -- every attribute has a value, and no name stands twice
        if mark != byte '=' || seen.contains key then none
        else
          match readAttributeValue? rest with
          | none => none
          | some (value, rest) =>
            match (decode? value).bind unescape?, readAttributes fuel (key :: seen) rest with
            | some value, some others =>
              some ((stringLossy key, String.ofList value) :: others)
            | _, _ => none

/-- The name at the start of a tag. -/
def tagName (bs : Bytes) : Bytes :=
  bs.takeWhile fun b => !isSpace b

/-- The attributes after the name of a tag. -/
def tagAttributes (bs : Bytes) : AttributeList :=
  readAttributes (bs.length + 1) [] (bs.dropWhile fun b => !isSpace b)

/-- The event of an opening or standing tag, and the name that it leaves open. -/
def tagEvent (bs : Bytes) : Event × Option Bytes :=
  if bs.getLast? == some (byte '/') then
    let bs := bs.dropLast
    (.standing (stringLossy (tagName bs)) (tagAttributes bs), none)
  else (.opening (stringLossy (tagName bs)) (tagAttributes bs), some (tagName bs))

mutual

/-- Reads on after a tag; `opened` holds the names of the open tags. -/
def readContent (broken : Bool) : Nat → List Bytes → Bytes → Reading
  | 0, _, _ => ⟨[], true⟩
  | fuel + 1, opened, bs =>
    match bs.dropWhile isSpace with
    | [] => ⟨[], broken⟩
    | b :: rest =>
      if b == byte '<' then readTag broken fuel opened rest
      else
        match cutAt (byte '<') (b :: rest) with
        | (content, next) =>
          let event := Event.text (((decode? (dropEnd isSpace content)).bind unescape?).map
            String.ofList)
          match next with
          | some rest => (readTag broken fuel opened rest).cons event
          -- text at the end of the document needs no tag after it
          | none => if broken then ⟨[], true⟩ else ⟨[event], false⟩

/-- Reads a tag after its `<`. -/
def readTag (broken : Bool) : Nat → List Bytes → Bytes → Reading
  | 0, _, _ => ⟨[], true⟩
  | _ + 1, _, [] => ⟨[], broken⟩
  | fuel + 1, opened, b :: bs =>
    if b == byte '!' then
      match readBang (b :: bs) with
      | some (event, rest) => (readContent broken fuel opened rest).cons event
      | none => ⟨[], true⟩
    else if b == byte '/' then
      let (name, next) := cutAt (byte '>') bs
      let name := closingName name
      match opened, next with
      | expected :: opened, some rest =>
        if name == expected then
          (readContent broken fuel opened rest).cons (.closing (stringLossy name))
        else ⟨[], true⟩
      -- a document may end inside its last closing tag
      | expected :: _, none =>
        if name == expected && !broken then ⟨[.closing (stringLossy name)], false⟩
        else ⟨[], true⟩
      | [], _ => ⟨[], true⟩
    else if b == byte '?' then
      let (content, next) := cutAt (byte '>') (b :: bs)
      match questionEvent? content, next with
      | some event, some rest => (readContent broken fuel opened rest).cons event
      | some event, none => if broken then ⟨[], true⟩ else ⟨[event], false⟩
      | none, _ => ⟨[], true⟩
    else
      let (content, next) := cutTag none (b :: bs)
      let (event, left) := tagEvent content
      match next with
      | some rest => (readContent broken fuel (left.toList ++ opened) rest).cons event
      | none => if broken then ⟨[], true⟩ else ⟨[event], false⟩

end

/-- The events of a document. When `broken` is set the bytes broke off before their end. -/
def readEvents (broken : Bool) (bs : Bytes) : Reading :=
  let bs := dropByteOrderMark bs
  readContent broken (2 * bs.length + 2) [] bs

end MotifQuery.Xml
