import MotifQuery.Text.Utf8

/-!
# `MotifQuery.Checksum.Crc32`: a cyclic redundancy check

The check of a row of bytes is the remainder of a division of polynomials over two
elements, with the bits of every byte taken from the lowest one. The remainder starts with
all bits set and is inverted at the end.
-/

set_option autoImplicit false

namespace MotifQuery.Checksum

/-- The divisor without its leading term, lowest power at the highest bit. -/
def crcDivisor : UInt32 := 0xEDB88320

/-- Divides one bit further. -/
def crcShift (r : UInt32) : UInt32 :=
  if r &&& 1 = 1 then (r >>> 1) ^^^ crcDivisor else r >>> 1

/-- Divides `n` bits further. -/
def crcShifts : Nat → UInt32 → UInt32
  | 0, r => r
  | n + 1, r => crcShifts n (crcShift r)

/-- Takes a byte into the remainder. -/
def crcStep (r : UInt32) (b : UInt8) : UInt32 :=
  crcShifts 8 (r ^^^ b.toUInt32)

/-- The check of a row of bytes. -/
def crc32 (bs : Bytes) : UInt32 :=
  bs.foldl crcStep 0xFFFFFFFF ^^^ 0xFFFFFFFF

end MotifQuery.Checksum
