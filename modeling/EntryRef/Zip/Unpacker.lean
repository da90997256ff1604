import EntryRef.Text.Basic
import EntryRef.Trouble

/-!
# Decompressors for further methods

Two methods of compression are left to libraries, `bz2` and `lzma`. An `Unpacker` is what is known
of the decompressor of such a library: `Unpacker.feed` is what it answers to a piece of compressed
data, and the laws are what its documentation says of its answers.

* Put together, the answers give the data that the compressed data stand for (`Unpacker.given`). A
  decompressor may hold data back until more is fed to it, but not at the end of the compressed data
  (`Unpacker.complete`).
* It tells the end of the compressed data when it is fed (`Unpacker.last_iff`), and what stands
  behind the end does not matter (`Unpacker.ends_mono`).
* It refuses nothing but what is damaged (`Unpacker.refused`).

The decompressor of `lzma` is `Unpacker.Eager`: it holds no data back. That of `bz2` is not, since a
block of data may wait for its turn when the input is used up.

`Tools` are the decompressors that are there. A library may be missing.
-/

namespace EntryRef.Zip

/-- What is answered to a piece of compressed data, behind the pieces that have been fed before, the
last of which comes first: the data that it gives, and whether the compressed data are over. -/
abbrev Feed := (fed : List Bytes) → (piece : Bytes) → Except Trouble (Bytes × Bool)

/-- The compressed data that have been fed. -/
def input (fed : List Bytes) : Bytes := fed.reverse.flatten

namespace Feed

/-- The data that have been given in all. -/
def total (feed : Feed) : List Bytes → Bytes
  | [] => []
  | piece :: fed =>
    total feed fed ++
      match feed fed piece with
      | .ok (data, _) => data
      | .error _ => []

/-- Nothing of what has been fed has been refused, and the compressed data are not over. -/
def Open (feed : Feed) : List Bytes → Prop
  | [] => True
  | piece :: fed => Open feed fed ∧ ∃ data, feed fed piece = .ok (data, false)

end Feed

/-- A decompressor, and what its answers have to do with the compressed data. -/
structure Unpacker where
  feed : Feed
  /-- The data that compressed data stand for, as far as these go. -/
  plain : Bytes → Bytes
  /-- The compressed data come to their end. -/
  Ends : Bytes → Prop
  /-- The compressed data are damaged. -/
  Damaged : Bytes → Prop
  plain_mono {bs cs : Bytes} : bs <+: cs → plain bs <+: plain cs
  ends_mono {bs cs : Bytes} : bs <+: cs → Ends bs → Ends cs ∧ plain cs = plain bs
  damaged_mono {bs cs : Bytes} : bs <+: cs → Damaged bs → Damaged cs
  not_damaged {bs : Bytes} : Ends bs → ¬Damaged bs
  given {fed : List Bytes} {piece data : Bytes} {last : Bool} : feed.Open fed →
    feed fed piece = .ok (data, last) → feed.total fed ++ data <+: plain (input (piece :: fed))
  last_iff {fed : List Bytes} {piece data : Bytes} {last : Bool} : feed.Open fed →
    feed fed piece = .ok (data, last) → (last = true ↔ Ends (input (piece :: fed)))
  complete {fed : List Bytes} {piece data : Bytes} : feed.Open fed →
    feed fed piece = .ok (data, true) → feed.total fed ++ data = plain (input (piece :: fed))
  refused {fed : List Bytes} {piece : Bytes} {why : Trouble} : feed.Open fed →
    feed fed piece = .error why → Damaged (input (piece :: fed))

/-- The decompressor holds nothing back: it gives all data that can be known, and refuses damaged
data at once. -/
def Unpacker.Eager (u : Unpacker) : Prop :=
  ∀ {fed : List Bytes} {piece data : Bytes} {last : Bool}, u.feed.Open fed →
    u.feed fed piece = .ok (data, last) →
    u.feed.total fed ++ data = u.plain (input (piece :: fed)) ∧ ¬u.Damaged (input (piece :: fed))

/-- The decompressors for further methods, as far as they are there. -/
structure Tools where
  bzip2 : Option Unpacker
  lzma : Option { u : Unpacker // u.Eager }

/-- No library is there. -/
def Tools.none : Tools := ⟨.none, .none⟩

end EntryRef.Zip
