import EntryRef.Text.Basic

/-!
# Bit streams

Compressed data are read bit by bit, from the lowest bit of each byte on. `Bits.pulled` is the
number of bytes that have been touched so far; what a reader can know depends on it alone.
-/

namespace EntryRef.Deflate

/-- A place in a bit stream. -/
structure Bits where
  /-- The bytes from the current one on. -/
  rest : Bytes
  /-- The number of bits of the current byte that have been read, at most seven. -/
  used : Nat
  /-- The number of bytes before the current one. -/
  start : Nat

namespace Bits

/-- The start of a bit stream. -/
def ofBytes (bs : Bytes) : Bits := ⟨bs, 0, 0⟩

/-- The number of bytes of which some bit has been read. -/
def pulled (b : Bits) : Nat := if b.used = 0 then b.start else b.start + 1

/-- The number of bits that are left. -/
def left (b : Bits) : Nat := 8 * b.rest.length - b.used

/-- The next bit. -/
def bit? (b : Bits) : Option (Nat × Bits) :=
  match b.rest with
  | [] => none
  | x :: r =>
    some (x.toNat >>> b.used % 2, if b.used < 7 then { b with used := b.used + 1 } else
      ⟨r, 0, b.start + 1⟩)

/-- The next number of `n` bits, the lowest bit first. -/
def number? : (n : Nat) → Bits → Option (Nat × Bits)
  | 0, b => some (0, b)
  | n + 1, b => do
    let (low, b) ← b.bit?
    let (high, b) ← number? n b
    return (low + 2 * high, b)

/-- Skips the rest of a byte that has been touched. -/
def align (b : Bits) : Bits :=
  if b.used = 0 then b else ⟨b.rest.tail, 0, b.start + 1⟩

/-- The next whole byte of a stream that stands between two bytes. -/
def byte? (b : Bits) : Option (UInt8 × Bits) :=
  match b.rest with
  | [] => none
  | x :: r => some (x, ⟨r, b.used, b.start + 1⟩)

end Bits

end EntryRef.Deflate
