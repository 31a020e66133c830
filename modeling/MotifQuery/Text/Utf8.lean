/-!
# `MotifQuery.Text.Utf8`: characters as bytes

`encode` writes a text as UTF-8. `decode?` reads bytes that are UTF-8 throughout.
`decodeLossy` reads any bytes: every longest start of a character that does not go on as
one, and every byte that starts none, becomes the replacement character.
-/

set_option autoImplicit false

namespace MotifQuery

/-- The bytes of a file, a message or a request. -/
abbrev Bytes := List UInt8

namespace Text

/-- The bytes of a character. -/
def encodeChar (c : Char) : Bytes :=
  let n := c.toNat
  if n < 0x80 then [n.toUInt8]
  else if n < 0x800 then [(0xC0 + n / 64).toUInt8, (0x80 + n % 64).toUInt8]
  else if n < 0x10000 then
    [(0xE0 + n / 4096).toUInt8, (0x80 + n / 64 % 64).toUInt8, (0x80 + n % 64).toUInt8]
  else
    [(0xF0 + n / 262144).toUInt8, (0x80 + n / 4096 % 64).toUInt8,
      (0x80 + n / 64 % 64).toUInt8, (0x80 + n % 64).toUInt8]

/-- The bytes of a text. -/
def encode (cs : List Char) : Bytes :=
  cs.flatMap encodeChar

/-- The bytes of a string. -/
def bytesOf (s : String) : Bytes :=
  encode s.toList

/-- Is the byte a continuation within the bounds? -/
def within (low high b : UInt8) : Bool :=
  low ≤ b && b ≤ high

/-- The payload of a continuation byte. -/
def payload (b : UInt8) : Nat :=
  b.toNat - 0x80

/-- The number of continuation bytes after a first byte, the bounds of the first of them,
and the payload of the first byte. -/
def leader? (b : UInt8) : Option (Nat × UInt8 × UInt8 × Nat) :=
  if within 0xC2 0xDF b then some (1, 0x80, 0xBF, b.toNat - 0xC0)
  else if b = 0xE0 then some (2, 0xA0, 0xBF, 0)
  else if b = 0xED then some (2, 0x80, 0x9F, 0xD)
  else if within 0xE1 0xEF b then some (2, 0x80, 0xBF, b.toNat - 0xE0)
  else if b = 0xF0 then some (3, 0x90, 0xBF, 0)
  else if within 0xF1 0xF3 b then some (3, 0x80, 0xBF, b.toNat - 0xF0)
  else if b = 0xF4 then some (3, 0x80, 0x8F, 4)
  else none

/-- Reads `count` continuation bytes, the first within the bounds, onto the payload read so
far. Gives the code point when all are there, and the bytes after the last one read. -/
def readTail : Nat → UInt8 → UInt8 → Nat → Bytes → Option Nat × Bytes
  | 0, _, _, n, bs => (some n, bs)
  | _ + 1, _, _, _, [] => (none, [])
  | count + 1, low, high, n, b :: bs =>
    if within low high b then readTail count 0x80 0xBF (n * 64 + payload b) bs
    -- the byte may start a character of its own, so it is left
    else (none, b :: bs)

/-- Reads one character that starts with the byte `b`. -/
def readChar (b : UInt8) (bs : Bytes) : Option Char × Bytes :=
  if b < 0x80 then (some (Char.ofNat b.toNat), bs)
  else
    match leader? b with
    | none => (none, bs)
    | some (count, low, high, n) =>
      let (code, rest) := readTail count low high n bs
      (code.map Char.ofNat, rest)

/-- Reads at most `fuel` characters; `none` marks bytes that are no character. -/
def readChars : Nat → Bytes → List (Option Char)
  | 0, _ => []
  | _ + 1, [] => []
  | fuel + 1, b :: bs =>
    let (c, rest) := readChar b bs
    c :: readChars fuel rest

/-- The characters of a row of bytes; `none` marks bytes that are no character. -/
def characters (bs : Bytes) : List (Option Char) :=
  readChars bs.length bs

/-- The text of bytes that are UTF-8 throughout. -/
def decode? (bs : Bytes) : Option (List Char) :=
  (characters bs).mapM id

/-- The text of any bytes. -/
def decodeLossy (bs : Bytes) : List Char :=
  (characters bs).map fun c => c.getD (Char.ofNat 0xFFFD)

/-- `decode?` as a string. -/
def stringOf? (bs : Bytes) : Option String :=
  (decode? bs).map String.ofList

/-- `decodeLossy` as a string. -/
def stringLossy (bs : Bytes) : String :=
  String.ofList (decodeLossy bs)

/-- The three bytes that may open a text. -/
def byteOrderMark : Bytes := [0xEF, 0xBB, 0xBF]

/-- The bytes after the byte order mark, when they open with one. -/
def dropByteOrderMark (bs : Bytes) : Bytes :=
  (byteOrderMark.isPrefixOf? bs).getD bs

end Text

end MotifQuery
