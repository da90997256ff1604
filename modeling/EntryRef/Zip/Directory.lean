import EntryRef.Text.Utf8
import EntryRef.Zip.Cp437
import EntryRef.Zip.Fault
import EntryRef.Zip.Member

/-!
# Directories of archives

An archive ends with a record that tells the size of its directory, which stands right before it.
The directory has a record for each member. `readDirectory` finds and reads it; the archive may
stand behind other data, so that places in its records are counted from where the archive starts.
-/

namespace EntryRef.Zip

open Text

/-! ### Numbers in records -/

/-- The number that some bytes write, the lowest byte first. -/
def little (bs : Bytes) : Nat := bs.foldr (fun b n => b.toNat + 256 * n) 0

/-- The bytes from a place on, at most so many. -/
def slice (start length : Nat) (bs : Bytes) : Bytes := (bs.drop start).take length

/-- The number that stands in some bytes of a record. -/
def field (record : Bytes) (start length : Nat) : Nat := little (slice start length record)

/-- Does a record start with a mark? All marks start with the same two letters. -/
def hasMark (record : Bytes) (a b : UInt8) : Bool := record.take 4 == [0x50, 0x4b, a, b]

/-! ### The record at the end -/

/-- What the record at the end of an archive says. -/
structure EndRecord where
  /-- The place in the file behind the directory. -/
  place : Int
  /-- The size of the directory. -/
  size : Nat
  /-- The place of the directory, counted from where the archive starts. -/
  offset : Nat

/-- The size of the record at the end. -/
def endSize : Nat := 22

/-- The size of the record that tells where the long form of the record at the end is. -/
def locatorSize : Nat := 20

/-- The size of the long form of the record at the end. -/
def longEndSize : Nat := 56

/-- The index of the last place where the mark of the record at the end stands; `i` is the index of
the first byte. -/
def lastMark (i : Nat) (best : Option Nat) : Bytes → Option Nat
  | [] => best
  | x :: r => lastMark (i + 1) (if hasMark (x :: r) 5 6 then some i else best) r

/-- The place of the record at the end: the very end of the file if the record has no comment, or
else the last place where its mark stands within the longest comment. -/
def findEnd? (file : Bytes) : Option Nat :=
  if file.length < endSize then none
  else
    let plain := file.length - endSize
    let tail := file.drop plain
    if hasMark tail 5 6 && tail.drop 20 == [0, 0] then some plain
    else
      -- the length of a comment is a number of two bytes
      let window := file.length - 65536 - endSize
      match lastMark 0 none (file.drop window) with
      | none => none
      | some i => if file.length < window + i + endSize then none else some (window + i)

/-- What the record at a place says, or the long form of it that stands before it. -/
def readEnd (file : Bytes) (place : Nat) : Except Fault EndRecord :=
  let record := slice place endSize file
  let short : EndRecord := ⟨place, field record 12 4, field record 16 4⟩
  let locator := slice (place - locatorSize) locatorSize file
  if place < locatorSize || !hasMark locator 6 7 then .ok short
  else if field locator 4 4 != 0 || 1 < field locator 16 4 then .error .manyParts
  else if place < locatorSize + longEndSize then .error .noDirectory
  else
    -- the long form, what tells its place, and the short form stand one behind another
    let start := place - locatorSize - longEndSize
    let long := slice start longEndSize file
    if hasMark long 6 6 then .ok ⟨start, field long 40 8, field long 48 8⟩ else .ok short

/-! ### The records of members -/

/-- The numbers that the record of a member may leave to its extra data. -/
structure Sizes where
  size : Nat
  compressedSize : Nat
  offset : Nat

/-- The number that stands for a longer one, which the extra data have. -/
def longMark : Nat := 0xffffffff

/-- The next long number in extra data, where the number at hand stands for one. -/
def long (what : Text) (marks : List Nat) (n : Nat) (data : Bytes) : Except Fault (Nat × Bytes) :=
  if n ∈ marks then
    if data.length < 8 then .error (.missingExtra what) else .ok (little (data.take 8), data.drop 8)
  else .ok (n, data)

/-- The sizes after the extra data for long numbers. -/
def Sizes.lengthen (s : Sizes) (data : Bytes) : Except Fault Sizes := do
  let (size, data) ← long "File size" [0xffffffffffffffff, longMark] s.size data
  let (compressedSize, data) ← long "Compress size" [longMark] s.compressedSize data
  let (offset, _) ← long "Header offset" [longMark] s.offset data
  return ⟨size, compressedSize, offset⟩

/-- The sizes after all extra data of a member, each of which has a tag and a length. -/
def Sizes.withExtra (s : Sizes) (extra : Bytes) : Except Fault Sizes :=
  if _h : extra.length < 4 then .ok s
  else
    let tag := little (extra.take 2)
    let length := little (slice 2 2 extra)
    if extra.length < length + 4 then .error (.badExtra tag length)
    else do
      let s ← if tag = 1 then s.lengthen (slice 4 length extra) else .ok s
      s.withExtra (extra.drop (length + 4))
termination_by extra.length
decreasing_by simp only [List.length_drop]; omega

/-- The flag that says that a name is UTF-8. -/
def utf8Flag : Nat := 0x800

/-- The text of a name, with the flags that stand beside it. -/
def nameText (flags : Nat) (name : Bytes) : Except Fault Text :=
  if flags / utf8Flag % 2 = 1 then (Utf8.decode name).mapError .badName else .ok (ofCp437 name)

/-- The size of a member's record, without its name, extra data and comment. -/
def recordSize : Nat := 46

/-- The newest version of the format that is read, in tenths. -/
def newestVersion : Nat := 63

/-- The member that the record at the start of some bytes describes, in an archive that starts at
`base`, and the size of all that belongs to it. Where the next member starts is not known yet. -/
def readMember (base : Int) (bs : Bytes) : Except Fault (Member × Nat) :=
  let record := bs.take recordSize
  if record.length < recordSize then .error .shortDirectory
  else if !hasMark record 1 2 then .error .badDirectoryMark
  else do
    let flags := field record 8 2
    let nameLength := field record 28 2
    let extraLength := field record 30 2
    let name ← nameText flags (slice recordSize nameLength bs)
    let version := field record 6 1
    if newestVersion < version then throw (.version version)
    let sizes : Sizes := ⟨field record 24 4, field record 20 4, field record 42 4⟩
    let sizes ← sizes.withExtra (slice (recordSize + nameLength) extraLength bs)
    let start := base + sizes.offset
    return (⟨name, flags, field record 10 2, field record 16 4, sizes.compressedSize, sizes.size,
      field record 38 4, start, start⟩, recordSize + nameLength + extraLength + field record 32 2)

/-- The members that a directory describes, behind those already found. -/
def readMembers (base : Int) (bs : Bytes) (found : Array Member) : Except Fault (Array Member) :=
  if _h : bs.length = 0 then .ok found
  else
    match readMember base bs with
    | .error e => .error e
    | .ok (m, size) => readMembers base (bs.drop (max 1 size)) (found.push m)
termination_by bs.length
decreasing_by simp only [List.length_drop]; omega

/-- Tells members, the last one in the file first, where the next one starts. -/
def stops (stop : Int) : List (Member × Nat) → List (Member × Nat)
  | [] => []
  | (m, i) :: ms => ({ m with stop := stop }, i) :: stops m.start ms

/-- Tells each member where the next one in the file starts, or the directory behind the last one.
Of members that start at one place, the first in the directory counts as the last. -/
def withStops (directory : Int) (ms : List Member) : List Member :=
  -- sorting is stable: where places are the same, the order of the directory stays
  let later := ms.zipIdx.mergeSort fun a b => b.1.start ≤ a.1.start
  ((stops directory later).mergeSort fun a b => a.2 ≤ b.2).map (·.1)

/-- The members of an archive. -/
def readDirectory (file : Bytes) : Except Fault (List Member) := do
  match findEnd? file with
  | none => throw .noDirectory
  | some place =>
    let e ← readEnd file place
    let start := e.place - e.size
    if start < 0 then throw .badDirectoryPlace
    let members ← readMembers (start - e.offset) (slice start.toNat e.size file) #[]
    return withStops start members.toList

end EntryRef.Zip
