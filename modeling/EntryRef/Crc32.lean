import EntryRef.Text.Basic

/-!
# Cyclic redundancy checks

The check of 32 bits that archives store for the data of each entry, with the bits of each byte
taken from the lowest on.
-/

namespace EntryRef.Crc32

/-- The divisor, without its highest bit and with its bits in reverse. -/
def divisor : UInt32 := 0xedb88320

/-- Divides one bit off. -/
def step (c : UInt32) : UInt32 := if c &&& 1 = 1 then divisor ^^^ (c >>> 1) else c >>> 1

/-- The remainders of the bytes. -/
def table : Array UInt32 :=
  Array.ofFn fun (i : Fin 256) => (List.range 8).foldl (fun c _ => step c) i.val.toUInt32

/-- Takes one more byte into a running remainder. -/
def push (c : UInt32) (b : UInt8) : UInt32 :=
  table.getD ((c ^^^ b.toUInt32) &&& 0xff).toNat 0 ^^^ (c >>> 8)

/-- Takes more data into a check; the check of no data is 0. -/
def update (crc : UInt32) (bs : Bytes) : UInt32 := bs.foldl push (crc ^^^ 0xffffffff) ^^^ 0xffffffff

/-- The check of some data. -/
def ofBytes (bs : Bytes) : UInt32 := update 0 bs

end EntryRef.Crc32
