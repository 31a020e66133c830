import MotifQuery.Gzip.Bits

/-!
# `MotifQuery.Gzip.Huffman`: codes given by their lengths

A canonical code is given by the length of the code word of every symbol: shorter words
come first, words of one length stand in the order of their symbols, and each word follows
the one before it. The code is full when its words use up all bit strings; only a code of
at most one word may be less than full.
-/

set_option autoImplicit false

namespace MotifQuery.Gzip

/-- A canonical code. -/
structure Code where
  /-- How many words there are of length 1, 2, … -/
  counts : List Nat
  /-- The symbols in the order of their words. -/
  symbols : Array Nat

namespace Code

/-- The longest word. -/
def maxLength : Nat := 15

/-- How many bit strings of the greatest length the words use up. -/
def usedUp (counts : List Nat) : Nat :=
  counts.foldl (fun total count => 2 * total + count) 0

/-- The code of symbols `0`, `1`, … with words of the given lengths; a length of zero gives
a symbol no word. -/
def ofLengths? (lengths : List Nat) : Option Code :=
  let indexed := lengths.zipIdx
  let counts := (List.range maxLength).map fun n => lengths.count (n + 1)
  let symbols := (List.range maxLength).flatMap fun n =>
    (indexed.filter fun (entry : Nat × Nat) => entry.1 == n + 1).map (·.2)
  -- only a code of at most one word may leave bit strings over
  if usedUp counts ≠ Nat.pow 2 maxLength ∧ 1 < symbols.length then none
  else some ⟨counts, symbols.toArray⟩

/-- Reads the rest of a word. The words of the lengths passed over end before `first`, and
`index` symbols have such words; `read` is what is read so far. -/
def decodeFrom (symbols : Array Nat) :
    List Nat → Nat → Nat → Nat → BitReader → Option (Option Nat × BitReader)
  | [], _, _, _, r => some (none, r)
  | count :: longer, read, first, index, r =>
    match r.bit? with
    | none => none
    | some (bit, r) =>
      let read := 2 * read + bit
      let first := 2 * first
      -- the words of one length are consecutive numbers
      if read < first + count then some (symbols[index + (read - first)]?, r)
      else decodeFrom symbols longer read (first + count) (index + count) r

/-- Reads a word: `none` where the bytes end first, no symbol where it is no word of the
code. -/
def decode (c : Code) (r : BitReader) : Option (Option Nat × BitReader) :=
  decodeFrom c.symbols c.counts 0 0 0 r

end Code

end MotifQuery.Gzip
