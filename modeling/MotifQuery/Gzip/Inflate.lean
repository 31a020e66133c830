import MotifQuery.Gzip.Huffman

/-!
# `MotifQuery.Gzip.Inflate`: unpacking compressed data

Compressed data is a row of blocks. A stored block holds bytes as they are; the others
hold code words for bytes and for copies of what was unpacked before. `inflate` gives the
bytes unpacked and how it ended: at the end of the last block with the bytes after it, at
the end of the input, or at data that makes no sense. A copy from before the start of the
data reads zeros.
-/

set_option autoImplicit false

namespace MotifQuery.Gzip

/-- How unpacking ends. -/
inductive Ending where
  /-- After the last block, before these bytes. -/
  | complete (rest : Bytes)
  | truncated
  | corrupt

/-- Why a step cannot be taken. -/
inductive Fault where
  | truncated
  | corrupt

/-- The ending that a fault forces. -/
def Fault.ending : Fault → Ending
  | truncated => .truncated
  | corrupt => .corrupt

/-- Reads a number of bits. -/
def take (n : Nat) (r : BitReader) : Except Fault (Nat × BitReader) :=
  match r.bits? n with
  | some result => .ok result
  | none => .error .truncated

/-- Reads a symbol. -/
def symbol (c : Code) (r : BitReader) : Except Fault (Nat × BitReader) :=
  match c.decode r with
  | some (some s, r) => .ok (s, r)
  | some (none, _) => .error .corrupt
  | none => .error .truncated

/-- For the length symbols from 257 on: the least length and the number of further bits. -/
def lengthTable : List (Nat × Nat) := [
  (3, 0), (4, 0), (5, 0), (6, 0), (7, 0), (8, 0), (9, 0), (10, 0), (11, 1), (13, 1),
  (15, 1), (17, 1), (19, 2), (23, 2), (27, 2), (31, 2), (35, 3), (43, 3), (51, 3), (59, 3),
  (67, 4), (83, 4), (99, 4), (115, 4), (131, 5), (163, 5), (195, 5), (227, 5), (258, 0)]

/-- For the distance symbols: the least distance and the number of further bits. -/
def distanceTable : List (Nat × Nat) := [
  (1, 0), (2, 0), (3, 0), (4, 0), (5, 1), (7, 1), (9, 2), (13, 2), (17, 3), (25, 3),
  (33, 4), (49, 4), (65, 5), (97, 5), (129, 6), (193, 6), (257, 7), (385, 7), (513, 8),
  (769, 8), (1025, 9), (1537, 9), (2049, 10), (3073, 10), (4097, 11), (6145, 11),
  (8193, 12), (12289, 12), (16385, 13), (24577, 13)]

/-- Reads a number by its table. -/
def tabled (table : List (Nat × Nat)) (n : Nat) (r : BitReader) :
    Except Fault (Nat × BitReader) :=
  match table[n]? with
  | none => .error .corrupt
  | some (least, more) =>
    match take more r with
    | .ok (extra, r) => .ok (least + extra, r)
    | .error fault => .error fault

/-- The two codes of a block. -/
structure BlockCodes where
  literals : Code
  distances : Code

/-- Appends `n` bytes, each from `distance` bytes back. -/
def copyBack (distance : Nat) : Nat → Array UInt8 → Array UInt8
  | 0, out => out
  | n + 1, out =>
    -- a copy may overlap what it appends, so it goes byte by byte
    let b := if out.size < distance then 0 else (out[out.size - distance]?).getD 0
    copyBack distance n (out.push b)

/-- What is unpacked so far, and where to go on, or why not. -/
abbrev Progress := Array UInt8 × Except Fault BitReader

/-- Unpacks the words of a block; every word takes at least one bit, so the bits bound the
steps. -/
def inflateWords (codes : BlockCodes) : Nat → Array UInt8 → BitReader → Progress
  | 0, out, _ => (out, .error .truncated)
  | fuel + 1, out, r =>
    match symbol codes.literals r with
    | .error fault => (out, .error fault)
    | .ok (s, r) =>
      if s < 256 then inflateWords codes fuel (out.push s.toUInt8) r
      else if s = 256 then (out, .ok r)
      else
        let copy : Except Fault (Nat × Nat × BitReader) := do
          let (length, r) ← tabled lengthTable (s - 257) r
          let (d, r) ← symbol codes.distances r
          let (distance, r) ← tabled distanceTable d r
          pure (length, distance, r)
        match copy with
        | .error fault => (out, .error fault)
        | .ok (length, distance, r) =>
          inflateWords codes fuel (copyBack distance length out) r

/-- The codes of a block that brings none of its own. -/
def fixedCodes? : Option BlockCodes := do
  let literals ← Code.ofLengths? (List.replicate 144 8 ++ List.replicate 112 9
    ++ List.replicate 24 7 ++ List.replicate 8 8)
  let distances ← Code.ofLengths? (List.replicate 32 5)
  pure { literals, distances }

/-- The order in which the lengths of the code for lengths are written. -/
def lengthOrder : List Nat := [16, 17, 18, 0, 8, 7, 9, 6, 10, 5, 11, 4, 12, 3, 13, 2, 14, 1, 15]

/-- Reads `n` numbers of three bits. -/
def takeTriples : Nat → BitReader → Except Fault (List Nat × BitReader)
  | 0, r => .ok ([], r)
  | n + 1, r => do
    let (value, r) ← take 3 r
    let (values, r) ← takeTriples n r
    pure (value :: values, r)

/-- Reads lengths until there are `wanted`; the latest comes first in `read`. -/
def readLengths (code : Code) (wanted : Nat) :
    Nat → List Nat → BitReader → Except Fault (List Nat × BitReader)
  | 0, _, _ => .error .truncated
  | fuel + 1, read, r =>
    if read.length = wanted then .ok (read.reverse, r)
    -- a run must not reach beyond the lengths that were announced
    else if wanted < read.length then .error .corrupt
    else do
      let (s, r) ← symbol code r
      if s < 16 then readLengths code wanted fuel (s :: read) r
      else if s = 16 then
        match read with
        | [] => throw .corrupt
        | last :: _ =>
          let (n, r) ← take 2 r
          readLengths code wanted fuel (List.replicate (n + 3) last ++ read) r
      else if s = 17 then
        let (n, r) ← take 3 r
        readLengths code wanted fuel (List.replicate (n + 3) 0 ++ read) r
      else
        let (n, r) ← take 7 r
        readLengths code wanted fuel (List.replicate (n + 11) 0 ++ read) r

/-- The code of a list of lengths, as a step. -/
def codeOf (lengths : List Nat) : Except Fault Code :=
  match Code.ofLengths? lengths with
  | some code => .ok code
  | none => .error .corrupt

/-- Reads the codes that a block brings along. -/
def readCodes (r : BitReader) : Except Fault (BlockCodes × BitReader) := do
  let (literalCount, r) ← take 5 r
  let (distanceCount, r) ← take 5 r
  let (lengthCount, r) ← take 4 r
  let literalCount := literalCount + 257
  let distanceCount := distanceCount + 1
  let (triples, r) ← takeTriples (lengthCount + 4) r
  let placed := lengthOrder.zip triples
  let code ← codeOf ((List.range 19).map fun s => (placed.lookup s).getD 0)
  if 286 < literalCount ∨ 30 < distanceCount then throw .corrupt
  let wanted := literalCount + distanceCount
  let (lengths, r) ← readLengths code wanted (wanted + 1) [] r
  let literals ← codeOf (lengths.take literalCount)
  let distances ← codeOf (lengths.drop literalCount)
  pure ({ literals, distances }, r)

/-- Unpacks a stored block. -/
def inflateStored (out : Array UInt8) (r : BitReader) : Progress :=
  match r.align with
  | a :: b :: c :: d :: rest =>
    let length := a.toNat + 256 * b.toNat
    -- the length is written twice, the second time inverted
    if length + (c.toNat + 256 * d.toNat) ≠ 65535 then (out, .error .corrupt)
    else
      let stored := rest.take length
      let out := out ++ stored
      if stored.length < length then (out, .error .truncated)
      else (out, .ok ⟨rest.drop length, 0⟩)
  | _ => (out, .error .truncated)

/-- Unpacks the block that follows its first three bits. -/
def inflateBlock (kind : Nat) (out : Array UInt8) (r : BitReader) : Progress :=
  let fuel := 8 * r.bytes.length + 1
  if kind = 0 then inflateStored out r
  else if kind = 1 then
    match fixedCodes? with
    | some codes => inflateWords codes fuel out r
    | none => (out, .error .corrupt)
  else if kind = 2 then
    match readCodes r with
    | .ok (codes, r) => inflateWords codes fuel out r
    | .error fault => (out, .error fault)
  else (out, .error .corrupt)

/-- Unpacks blocks up to the last one. -/
def inflateBlocks : Nat → Array UInt8 → BitReader → Array UInt8 × Ending
  | 0, out, _ => (out, .truncated)
  | fuel + 1, out, r =>
    match take 3 r with
    | .error fault => (out, fault.ending)
    | .ok (header, r) =>
      match inflateBlock (header / 2) out r with
      | (out, .error fault) => (out, fault.ending)
      | (out, .ok r) =>
        if header % 2 = 1 then (out, .complete r.align) else inflateBlocks fuel out r

/-- Unpacks compressed data. -/
def inflate (bs : Bytes) : Array UInt8 × Ending :=
  inflateBlocks (8 * bs.length + 1) #[] ⟨bs, 0⟩

end MotifQuery.Gzip
