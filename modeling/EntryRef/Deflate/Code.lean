import EntryRef.Deflate.Bits

/-!
# Canonical codes

A code gives each symbol a word of bits. It is known by the lengths of the words alone: shorter
words come first, and words of one length go up with their symbols. Length zero means that a symbol
has no word.

`Code.ofLengths?` refuses lengths that ask for more words than there are, and lengths that leave
words unused, save for a code with one word of one bit and the empty code.
-/

namespace EntryRef.Deflate

/-- A canonical code. -/
structure Code where
  /-- The number of words of each length from one on, up to the longest. -/
  counts : List Nat
  /-- The symbols in the order of their words. -/
  symbols : Array Nat

/-- The longest word. -/
def maxWord : Nat := 15

namespace Code

/-- The number of words of each length from one to `maxWord`. -/
def countsOf (lengths : List Nat) : List Nat :=
  (List.range maxWord).map fun i => lengths.count (i + 1)

/-- The symbols in the order of their words: first those with words of one bit, and so on. -/
def symbolsOf (lengths : List Nat) : Array Nat :=
  let indexed := lengths.zipIdx
  ((List.range maxWord).flatMap fun i =>
    (indexed.filter fun p => p.1 = i + 1).map (·.2)).toArray

/-- The number of words of `maxWord` bits that remain unused, or nothing if there are not enough
words. `free` is the number of words that remain before the given lengths. -/
def unused? (free : Nat) : List Nat → Option Nat
  | [] => some free
  | count :: rest => if 2 * free < count then none else unused? (2 * free - count) rest

/-- The length of the longest word. -/
def longest (lengths : List Nat) : Nat := lengths.foldl max 0

/-- The code with the given lengths of words. Where `strict` is set, a single word of one bit is not
enough for a code. -/
def ofLengths? (strict : Bool) (lengths : List Nat) : Option Code :=
  let counts := countsOf lengths
  let code : Code := ⟨counts.take (max 1 (longest lengths)), symbolsOf lengths⟩
  if longest lengths = 0 then some code
  else match unused? 1 counts with
    | none => none
    | some 0 => some code
    | some _ => if strict || longest lengths != 1 then none else some code

/-- Reads a word bit by bit. `word` are the bits read so far, `first` is the first word of their
length and `index` the index of its symbol; `counts` belong to the lengths that follow. There is no
answer where the bits end, and no symbol where no word fits. -/
def decodeFrom (symbols : Array Nat) (word first index : Nat) :
    List Nat → Bits → Option (Option Nat × Bits)
  | [], b => some (none, b)
  | count :: counts, b => do
    let (bit, b) ← b.bit?
    let word := 2 * word + bit
    let first := 2 * first
    if word < first + count then return (symbols[index + (word - first)]?, b)
    else decodeFrom symbols word (first + count) (index + count) counts b

/-- Reads the word of a symbol. -/
def decode? (c : Code) (b : Bits) : Option (Option Nat × Bits) :=
  decodeFrom c.symbols 0 0 0 c.counts b

end Code

end EntryRef.Deflate
