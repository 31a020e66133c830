import MotifQuery.Checksum.Crc32
import MotifQuery.Gzip.Inflate

/-!
# `MotifQuery.Gzip.Member`: gzip files

A gzip file opens with a header, holds compressed data, and closes with a check of the
bytes and their number; what follows is not looked at. `unpack` gives the bytes that can
be had and whether the file is sound to its end. Data that makes no sense is noticed only
when a window of `2 ^ 15` bytes is full or the data ends, so the bytes of the last window
are lost.
-/

set_option autoImplicit false

namespace MotifQuery.Gzip

/-- What a file gives. -/
structure Unpacked where
  bytes : Bytes
  /-- The file is not sound. -/
  broken : Bool

/-- Drops the text up to and with the next zero byte. -/
def afterZero? : Bytes → Option Bytes
  | [] => none
  | b :: bs => if b = 0 then some bs else afterZero? bs

/-- Drops `n` bytes. -/
def drop? (n : Nat) (bs : Bytes) : Option Bytes :=
  if bs.length < n then none else some (bs.drop n)

/-- Is a flag of the header set? -/
def hasFlag (flags : UInt8) (n : Nat) : Bool :=
  flags.toNat / Nat.pow 2 n % 2 == 1

/-- Drops the further field of a header, behind its length. -/
def afterExtra? : Bytes → Option Bytes
  | a :: b :: rest => drop? (a.toNat + 256 * b.toNat) rest
  | _ => none

/-- Drops the check of a header; it counts the bytes before it. -/
def afterHeaderCheck? (all rest : Bytes) : Option Bytes :=
  match rest with
  | a :: b :: body =>
    let header := all.take (all.length - rest.length)
    if (Checksum.crc32 header).toNat % 65536 = a.toNat + 256 * b.toNat then some body else none
  | _ => none

/-- The compressed data after a header. -/
def body? (bs : Bytes) : Option Bytes :=
  match bs with
  | 0x1f :: 0x8b :: 8 :: flags :: rest => do
    -- the upper flags are reserved
    if 32 ≤ flags.toNat then none
    let rest ← drop? 6 rest
    let rest ← if hasFlag flags 2 then afterExtra? rest else some rest
    let rest ← if hasFlag flags 3 then afterZero? rest else some rest
    let rest ← if hasFlag flags 4 then afterZero? rest else some rest
    if hasFlag flags 1 then afterHeaderCheck? bs rest else some rest
  | _ => none

/-- A number of four bytes, the lowest first. -/
def word? : Bytes → Option (Nat × Bytes)
  | a :: b :: c :: d :: rest =>
    some (a.toNat + 256 * (b.toNat + 256 * (c.toNat + 256 * d.toNat)), rest)
  | _ => none

/-- Does the end of a file confirm the bytes? -/
def confirms (rest bytes : Bytes) : Bool :=
  match word? rest with
  | none => false
  | some (check, rest) =>
    match word? rest with
    | none => false
    | some (size, _) =>
      check == (Checksum.crc32 bytes).toNat && size == bytes.length % Nat.pow 2 32

/-- Unpacks a file. -/
def unpack (bs : Bytes) : Unpacked :=
  match body? bs with
  | none => ⟨[], true⟩
  | some body =>
    match inflate body with
    | (out, .complete rest) =>
      let bytes := out.toList
      ⟨bytes, !confirms rest bytes⟩
    | (out, .truncated) => ⟨out.toList, true⟩
    | (out, .corrupt) => ⟨out.toList.take (out.size / Nat.pow 2 15 * Nat.pow 2 15), true⟩

end MotifQuery.Gzip
