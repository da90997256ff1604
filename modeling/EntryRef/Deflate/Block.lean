import EntryRef.Deflate.Code

/-!
# Blocks of compressed data

Compressed data come in blocks. A block is stored as it is, or it is written in two codes, one for
literals and lengths and one for distances, which are fixed or stand at the start of the block.

Reading stops with an `Ending`, which tells how many bytes were needed to see it.
-/

namespace EntryRef.Deflate

open Text

/-- What is wrong with compressed data. -/
inductive Fault
  | blockType
  | storedLength
  | tooManySymbols
  | codeLengthCode
  | lengthRepeat
  | noEndOfBlock
  | literalCode
  | distanceCode
  | literal
  | distance
  | tooFarBack
deriving DecidableEq

/-- The words for a fault. -/
def Fault.message (f : Fault) : Text :=
  "Error -3 while decompressing data: " ++
    match f with
    | .blockType => "invalid block type".toList
    | .storedLength => "invalid stored block lengths".toList
    | .tooManySymbols => "too many length or distance symbols".toList
    | .codeLengthCode => "invalid code lengths set".toList
    | .lengthRepeat => "invalid bit length repeat".toList
    | .noEndOfBlock => "invalid code -- missing end-of-block".toList
    | .literalCode => "invalid literal/lengths set".toList
    | .distanceCode => "invalid distances set".toList
    | .literal => "invalid literal/length code".toList
    | .distance => "invalid distance code".toList
    | .tooFarBack => "invalid distance too far back".toList

/-- Where compressed data end. -/
inductive Ending
  /-- The last block is over, which shows after that many bytes. -/
  | finished (needs : Nat)
  /-- The data are wrong, which shows after that many bytes. -/
  | fault (why : Fault) (needs : Nat)
  /-- A copy reaches back before the start, which shows after that many bytes, once the copy is
  about to be made. -/
  | tooFar (needs : Nat)
  /-- There are no more data, though the last block is not over. -/
  | starved
deriving DecidableEq

/-- Reading from a bit stream until it ends. -/
abbrev Reading := StateT Bits (Except Ending)

namespace Reading

/-- Reads by a function that has no answer where the bits end. -/
def ofOption {α : Type} (f : Bits → Option (α × Bits)) : Reading α := fun b =>
  match f b with
  | some r => .ok r
  | none => .error .starved

/-- The next number of `n` bits. -/
def number (n : Nat) : Reading Nat := ofOption (Bits.number? n)

/-- The next symbol of a code. -/
def symbol (c : Code) : Reading (Option Nat) := ofOption c.decode?

/-- Stops with a fault that shows here. -/
def fail {α : Type} (why : Fault) : Reading α := fun b => .error (.fault why b.pulled)

end Reading

/-! ### The kinds of blocks -/

/-- What is being read: the start of a block, or the inside of one. -/
inductive Mode
  | header
  /-- A stored block with so many bytes to come. -/
  | stored (count : Nat) (last : Bool)
  /-- A block in two codes. -/
  | coded (literals distances : Code) (last : Bool)
  /-- Nothing follows. -/
  | ended

/-- What follows a block. -/
def Mode.after (last : Bool) : Mode := if last then .ended else .header

/-- The lengths of the fixed code for literals and lengths. -/
def fixedLiteralLengths : List Nat :=
  List.replicate 144 8 ++ List.replicate 112 9 ++ List.replicate 24 7 ++ List.replicate 8 8

/-- The fixed code for literals and lengths. -/
def fixedLiterals : Code := ((Code.ofLengths? false fixedLiteralLengths).getD ⟨[], #[]⟩)

/-- The fixed code for distances. -/
def fixedDistances : Code := ((Code.ofLengths? false (List.replicate 32 5)).getD ⟨[], #[]⟩)

/-- The start of a stored block, behind its type. -/
def readStored (last : Bool) : Reading Mode := do
  modify Bits.align
  let length ← Reading.number 16
  let check ← Reading.number 16
  if length + check = 0xffff then
    return if length = 0 then .after last else .stored length last
  else Reading.fail .storedLength

/-- The order in which the lengths of the words for code lengths are written. -/
def lengthOrder : List Nat := [16, 17, 18, 0, 8, 7, 9, 6, 10, 5, 11, 4, 12, 3, 13, 2, 14, 1, 15]

/-- The lengths of the words for code lengths, of which the first `count` are written. -/
def readLengthCode (count : Nat) : Reading (List Nat) := do
  let written ← (lengthOrder.take count).mapM fun symbol => return (symbol, ← Reading.number 3)
  return (List.range 19).map fun i => (written.lookup i).getD 0

/-- Reads lengths of words, at most `total` of them behind those that are there: a length, the last
length three to six times, or zero three to ten or eleven to 138 times. Each step gives at least one
length, so that `total` steps are enough. -/
def readLengths (code : Code) (total : Nat) : (fuel : Nat) → Array Nat → Reading (Array Nat)
  | 0, found => return found
  | fuel + 1, found => do
    if total ≤ found.size then return found
    let symbol := (← Reading.symbol code).getD 0
    if symbol < 16 then readLengths code total fuel (found.push symbol)
    else
      let extra ← Reading.number (if symbol = 16 then 2 else if symbol = 17 then 3 else 7)
      let times := extra + (if symbol = 18 then 11 else 3)
      if symbol = 16 ∧ found.isEmpty ∨ total < found.size + times then Reading.fail .lengthRepeat
      else
        let length := if symbol = 16 then found.back?.getD 0 else 0
        readLengths code total fuel (found ++ List.replicate times length)

/-- The code with the given lengths, or a fault. -/
def codeOr (why : Fault) (strict : Bool) (lengths : List Nat) : Reading Code :=
  match Code.ofLengths? strict lengths with
  | some c => return c
  | none => Reading.fail why

/-- The codes at the start of a block. -/
def readCodes (last : Bool) : Reading Mode := do
  let literals := (← Reading.number 5) + 257
  let distances := (← Reading.number 5) + 1
  let count := (← Reading.number 4) + 4
  if 286 < literals ∨ 30 < distances then Reading.fail .tooManySymbols
  else
    let code ← codeOr .codeLengthCode true (← readLengthCode count)
    let total := literals + distances
    let lengths := (← readLengths code total total #[]).toList
    if lengths.getD 256 0 = 0 then Reading.fail .noEndOfBlock
    else
      let c ← codeOr .literalCode false (lengths.take literals)
      let d ← codeOr .distanceCode false (lengths.drop literals)
      return .coded c d last

/-- The start of a block. -/
def readHeader : Reading Mode := do
  let last := (← Reading.number 1) = 1
  match ← Reading.number 2 with
  | 0 => readStored last
  | 1 => return .coded fixedLiterals fixedDistances last
  | 2 => readCodes last
  | _ => Reading.fail .blockType

end EntryRef.Deflate
