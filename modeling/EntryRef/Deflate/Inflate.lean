import EntryRef.Deflate.Block

/-!
# Decompression

`inflate` decompresses data as far as they go. For each byte of the result it tells how much of the
input has to be there before the byte is known, so that a reader who gets the input bit by bit, and
wants the output bit by bit, can be told what he would see: this is `Flow.run`.
-/

namespace EntryRef.Deflate

/-- A byte of decompressed data. -/
structure Ready where
  byte : UInt8
  /-- The number of bytes of input that have to be there before this one is known. -/
  needs : Nat
  /-- The number of bytes of input that are used up while this one waits to be taken. -/
  held : Nat

/-- What a step adds to the decompressed data. -/
inductive Action
  | nothing
  /-- A byte that is written in a code. -/
  | literal (b : UInt8)
  /-- A byte of a stored block. -/
  | stored (b : UInt8)
  /-- A copy of earlier bytes. -/
  | copy (length distance : Nat)

/-- The shortest length of each length symbol and its number of extra bits. -/
def lengthRows : Array (Nat × Nat) :=
  #[(3, 0), (4, 0), (5, 0), (6, 0), (7, 0), (8, 0), (9, 0), (10, 0), (11, 1), (13, 1), (15, 1),
    (17, 1), (19, 2), (23, 2), (27, 2), (31, 2), (35, 3), (43, 3), (51, 3), (59, 3), (67, 4),
    (83, 4), (99, 4), (115, 4), (131, 5), (163, 5), (195, 5), (227, 5), (258, 0)]

/-- The shortest distance of each distance symbol and its number of extra bits. -/
def distanceRows : Array (Nat × Nat) :=
  #[(1, 0), (2, 0), (3, 0), (4, 0), (5, 1), (7, 1), (9, 2), (13, 2), (17, 3), (25, 3), (33, 4),
    (49, 4), (65, 5), (97, 5), (129, 6), (193, 6), (257, 7), (385, 7), (513, 8), (769, 8),
    (1025, 9), (1537, 9), (2049, 10), (3073, 10), (4097, 11), (6145, 11), (8193, 12), (12289, 12),
    (16385, 13), (24577, 13)]

/-- The number that a row and its extra bits stand for. -/
def readRow (rows : Array (Nat × Nat)) (i : Nat) (why : Fault) : Reading Nat := do
  match rows[i]? with
  | none => Reading.fail why
  | some (least, bits) => return least + (← Reading.number bits)

/-- One symbol of a coded block, and whether the block goes on. -/
def readCoded (literals distances : Code) : Reading (Action × Bool) := do
  match ← Reading.symbol literals with
  | none => Reading.fail .literal
  | some symbol =>
    if symbol < 256 then return (.literal (UInt8.ofNat symbol), true)
    else if symbol = 256 then return (.nothing, false)
    else
      let length ← readRow lengthRows (symbol - 257) .literal
      match ← Reading.symbol distances with
      | none => Reading.fail .distance
      | some symbol => return (.copy length (← readRow distanceRows symbol .distance), true)

/-- One step of decompression. -/
def readStep : Mode → Reading (Action × Mode)
  | .header => return (.nothing, ← readHeader)
  | .stored count last => do
    let b ← Reading.ofOption Bits.byte?
    return (.stored b, if count ≤ 1 then .after last else .stored (count - 1) last)
  | .coded literals distances last => do
    let (action, goesOn) ← readCoded literals distances
    return (action, if goesOn then .coded literals distances last else .after last)
  | .ended => fun b => .error (.finished b.pulled)

/-- Decompressed data and how they end. -/
structure Flow where
  ready : List Ready
  ending : Ending

/-- Repeats `length` bytes that start `distance` before the end. -/
def copyBack (distance needs : Nat) : (length : Nat) → Array Ready → Array Ready
  | 0, out => out
  | length + 1, out =>
    -- a copy may reach into itself, so that one byte is there before the next is looked up
    let b := (out[out.size - distance]?.map (·.byte)).getD 0
    copyBack distance needs length (out.push ⟨b, needs, needs⟩)

/-- Takes steps of decompression behind what has been decompressed already. -/
def inflateFrom : (fuel : Nat) → Mode → Bits → Array Ready → Flow
  | 0, _, _, out => ⟨out.toList, .starved⟩
  | fuel + 1, mode, b, out =>
    match readStep mode b with
    | .error ending => ⟨out.toList, ending⟩
    | .ok ((action, mode), b) =>
      match action with
      | .nothing => inflateFrom fuel mode b out
      | .literal x => inflateFrom fuel mode b (out.push ⟨x, b.pulled, b.pulled⟩)
      | .stored x => inflateFrom fuel mode b (out.push ⟨x, b.pulled, b.pulled - 1⟩)
      | .copy length distance =>
        if out.size < distance then ⟨out.toList, .tooFar b.pulled⟩
        else inflateFrom fuel mode b (copyBack distance b.pulled length out)

/-- Decompresses data. Every step but the last uses at least one bit. -/
def inflate (bs : Bytes) : Flow := inflateFrom (8 * bs.length + 2) .header (.ofBytes bs) #[]

namespace Flow

/-- What comes of running a decompressor for a while. -/
structure Progress where
  /-- The bytes taken. -/
  output : Bytes
  /-- What is still to come. -/
  rest : Flow
  /-- The number of bytes of input used up so far. -/
  used : Nat
  /-- Are the compressed data over? -/
  finished : Bool

/-- Takes the bytes that are known with the given input, as many as there is room for. -/
def take (input : Nat) : (room : Nat) → List Ready → Array UInt8 → Array UInt8 × Nat × List Ready
  | 0, rs, out => (out, 0, rs)
  | room + 1, [], out => (out, room + 1, [])
  | room + 1, r :: rs, out =>
    if r.needs ≤ input then take input room rs (out.push r.byte) else (out, room + 1, r :: rs)

/-- Runs a decompressor that has been given so many bytes of input, with room for so many bytes of
output. It looks one step ahead: a fault shows even where there is no room left. -/
def run (f : Flow) (input room : Nat) : Except Fault Progress :=
  let (out, roomLeft, rest) := take input room f.ready #[]
  let progress (used : Nat) (finished : Bool) : Progress :=
    ⟨out.toList, ⟨rest, f.ending⟩, used, finished⟩
  match rest with
  | r :: _ => .ok (progress (if r.needs ≤ input then r.held else input) false)
  | [] =>
    match f.ending with
    | .finished needs => .ok (if needs ≤ input then progress needs true else progress input false)
    | .fault why needs => if needs ≤ input then .error why else .ok (progress input false)
    | .tooFar needs =>
      if needs ≤ input then if roomLeft = 0 then .ok (progress needs false) else .error .tooFarBack
      else .ok (progress input false)
    | .starved => .ok (progress input false)

/-- Everything that is known with the given input. -/
def flush (f : Flow) (input : Nat) : Bytes × Flow :=
  let (out, _, rest) := take input f.ready.length f.ready #[]
  (out.toList, ⟨rest, f.ending⟩)

end Flow

end EntryRef.Deflate
