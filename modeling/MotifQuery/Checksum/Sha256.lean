import MotifQuery.Number.Integer
import MotifQuery.Text.Utf8

/-!
# `MotifQuery.Checksum.Sha256`: a digest of 256 bits

The message is padded to blocks of 64 bytes: a byte with only its highest bit set, zeros,
and the length of the message in bits. Each block is expanded to 64 words, and 64 rounds
mix them into a state of eight words.
-/

set_option autoImplicit false

namespace MotifQuery.Checksum

/-- The constants of the rounds. -/
def roundConstants : List UInt32 := [
  0x428a2f98, 0x71374491, 0xb5c0fbcf, 0xe9b5dba5, 0x3956c25b, 0x59f111f1, 0x923f82a4, 0xab1c5ed5,
  0xd807aa98, 0x12835b01, 0x243185be, 0x550c7dc3, 0x72be5d74, 0x80deb1fe, 0x9bdc06a7, 0xc19bf174,
  0xe49b69c1, 0xefbe4786, 0x0fc19dc6, 0x240ca1cc, 0x2de92c6f, 0x4a7484aa, 0x5cb0a9dc, 0x76f988da,
  0x983e5152, 0xa831c66d, 0xb00327c8, 0xbf597fc7, 0xc6e00bf3, 0xd5a79147, 0x06ca6351, 0x14292967,
  0x27b70a85, 0x2e1b2138, 0x4d2c6dfc, 0x53380d13, 0x650a7354, 0x766a0abb, 0x81c2c92e, 0x92722c85,
  0xa2bfe8a1, 0xa81a664b, 0xc24b8b70, 0xc76c51a3, 0xd192e819, 0xd6990624, 0xf40e3585, 0x106aa070,
  0x19a4c116, 0x1e376c08, 0x2748774c, 0x34b0bcb5, 0x391c0cb3, 0x4ed8aa4a, 0x5b9cca4f, 0x682e6ff3,
  0x748f82ee, 0x78a5636f, 0x84c87814, 0x8cc70208, 0x90befffa, 0xa4506ceb, 0xbef9a3f7, 0xc67178f2]

/-- The state of the digest. -/
structure DigestState where
  a : UInt32 := 0x6a09e667
  b : UInt32 := 0xbb67ae85
  c : UInt32 := 0x3c6ef372
  d : UInt32 := 0xa54ff53a
  e : UInt32 := 0x510e527f
  f : UInt32 := 0x9b05688c
  g : UInt32 := 0x1f83d9ab
  h : UInt32 := 0x5be0cd19
deriving DecidableEq

/-- Turns a word to the right; `n` lies between 1 and 31. -/
def turn (n x : UInt32) : UInt32 :=
  (x >>> n) ||| (x <<< (32 - n))

/-- The bytes of a number, highest first. -/
def bigEndian : Nat → Nat → Bytes
  | 0, _ => []
  | width + 1, n => (n / Nat.pow 256 width).toUInt8 :: bigEndian width n

/-- The message with its padding. -/
def padded (bs : Bytes) : Bytes :=
  -- one byte before the zeros and eight bytes after them fill the last block
  bs ++ 0x80 :: List.replicate ((119 - bs.length % 64) % 64) 0 ++ bigEndian 8 (8 * bs.length)

/-- The words of a row of bytes. -/
def words : Bytes → List UInt32
  | a :: b :: c :: d :: rest =>
    ((a.toUInt32 <<< 24) ||| (b.toUInt32 <<< 16) ||| (c.toUInt32 <<< 8) ||| d.toUInt32)
      :: words rest
  | _ => []

/-- Appends `n` words to a schedule, whose latest word comes first. -/
def schedule : Nat → List UInt32 → List UInt32
  | 0, ws => ws
  | n + 1, ws =>
    let word (back : Nat) : UInt32 := (ws[back - 1]?).getD 0
    let x := word 15
    let y := word 2
    let s := turn 7 x ^^^ turn 18 x ^^^ (x >>> 3)
    let t := turn 17 y ^^^ turn 19 y ^^^ (y >>> 10)
    schedule n ((word 16 + s + word 7 + t) :: ws)

/-- One round. -/
def DigestState.round (s : DigestState) (input : UInt32 × UInt32) : DigestState :=
  let t := s.h + (turn 6 s.e ^^^ turn 11 s.e ^^^ turn 25 s.e)
    + ((s.e &&& s.f) ^^^ ((~~~ s.e) &&& s.g)) + input.1 + input.2
  let u := (turn 2 s.a ^^^ turn 13 s.a ^^^ turn 22 s.a)
    + ((s.a &&& s.b) ^^^ (s.a &&& s.c) ^^^ (s.b &&& s.c))
  { a := t + u, b := s.a, c := s.b, d := s.c, e := s.d + t, f := s.e, g := s.f, h := s.g }

/-- Adds two states word by word. -/
def DigestState.add (s t : DigestState) : DigestState :=
  { a := s.a + t.a, b := s.b + t.b, c := s.c + t.c, d := s.d + t.d
    e := s.e + t.e, f := s.f + t.f, g := s.g + t.g, h := s.h + t.h }

/-- Takes the sixteen words of a block into the state. -/
def DigestState.block (s : DigestState) (ws : List UInt32) : DigestState :=
  s.add ((roundConstants.zip (schedule 48 ws.reverse).reverse).foldl DigestState.round s)

/-- Takes at most `n` blocks into the state. -/
def DigestState.blocks : Nat → DigestState → List UInt32 → DigestState
  | 0, s, _ => s
  | n + 1, s, ws => if ws.isEmpty then s else blocks n (s.block (ws.take 16)) (ws.drop 16)

/-- The words of a state. -/
def DigestState.toList (s : DigestState) : List UInt32 :=
  [s.a, s.b, s.c, s.d, s.e, s.f, s.g, s.h]

/-- The digest of a row of bytes, in hexadecimal. -/
def sha256Text (bs : Bytes) : String :=
  let ws := words (padded bs)
  String.ofList ((DigestState.blocks ws.length {} ws).toList.flatMap fun w =>
    Number.hexDigits 8 w.toNat)

end MotifQuery.Checksum
