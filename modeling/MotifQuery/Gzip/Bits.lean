import MotifQuery.Text.Utf8

/-!
# `MotifQuery.Gzip.Bits`: a row of bytes read bit by bit

The bits of a byte are read from the lowest one. Numbers are written with the lowest bit
first. A reader stands before a bit of the first byte that it still holds.
-/

set_option autoImplicit false

namespace MotifQuery.Gzip

/-- A place in a row of bytes: the bytes from there, and how many bits of the first one are
read already. -/
structure BitReader where
  bytes : Bytes
  used : Nat := 0

namespace BitReader

/-- Reads a bit. -/
def bit? (r : BitReader) : Option (Nat × BitReader) :=
  match r.bytes with
  | [] => none
  | b :: rest =>
    let value := b.toNat / Nat.pow 2 r.used % 2
    if r.used = 7 then some (value, ⟨rest, 0⟩) else some (value, ⟨b :: rest, r.used + 1⟩)

/-- Reads a number of `n` bits. -/
def bits? : Nat → BitReader → Option (Nat × BitReader)
  | 0, r => some (0, r)
  | n + 1, r => do
    let (low, r) ← r.bit?
    let (high, r) ← bits? n r
    pure (low + 2 * high, r)

/-- Goes to the start of the next byte. -/
def align (r : BitReader) : Bytes :=
  if r.used = 0 then r.bytes else r.bytes.tail

end BitReader

end MotifQuery.Gzip
