import EntryRef.Text.Quoted

/-!
# Reading bytes as text

A decoder looks at the front of a byte string and answers with a `Segment`: how many bytes it looked
at, and the character that they stand for or the `Reason` why they stand for none. All decoders here
are made of such steps, and the two ways to use one are the same for all of them:

* `strict` takes the text, or the first segment that stands for no character, with its place,
* `lossy` puts U+FFFD in the place of each segment that stands for no character.
-/

namespace EntryRef.Text

/-- Why some bytes stand for no character. -/
inductive Reason
  /-- No character starts with this byte. -/
  | startByte
  /-- The byte that follows cannot continue the character. -/
  | continuation
  /-- The data end inside a character. -/
  | endOfData
  /-- The byte is not ASCII. -/
  | notAscii
  /-- The data end inside a code unit. -/
  | truncated
  /-- The second half of a pair stands alone. -/
  | loneTrailer
  /-- The first half of a pair is not followed by a second half. -/
  | loneLeader
  /-- The number is that of a half of a pair. -/
  | surrogate
  /-- The number is too large for a code point. -/
  | outOfRange
  /-- An encoding of another kind has its own words for it. -/
  | told (words : Text)
deriving DecidableEq

/-- The words for a reason. -/
def Reason.message : Reason → Text
  | .startByte => "invalid start byte"
  | .continuation => "invalid continuation byte"
  | .endOfData => "unexpected end of data"
  | .notAscii => "ordinal not in range(128)"
  | .truncated => "truncated data"
  | .loneTrailer => "illegal encoding"
  | .loneLeader => "illegal UTF-16 surrogate"
  | .surrogate => "code point in surrogate code point range(0xd800, 0xe000)"
  | .outOfRange => "code point not in range(0x110000)"
  | .told words => words

/-- What one step of a decoder reads. -/
structure Segment where
  /-- The number of bytes that the step looked at. -/
  width : Nat
  /-- The character, or why there is none. -/
  reading : Except Reason Char

/-- The first place where data could not be read as text. -/
structure DecodeFault where
  /-- The decoder that gave up, by its usual name. -/
  decoder : Text
  /-- The first byte of the segment. -/
  byte : UInt8
  /-- The index of that byte. -/
  start : Nat
  /-- The number of bytes in the segment. -/
  width : Nat
  /-- Why the segment stands for no character. -/
  reason : Reason
deriving DecidableEq

/-- The words for a fault; a segment of one byte shows the byte, a longer one only its place. -/
def DecodeFault.message (f : DecodeFault) : Text :=
  quoted f.decoder ++ " codec can't decode " ++
    (if f.width = 1 then
      ("byte 0x" : Text) ++ hex 2 f.byte.toNat ++ " in position " ++ ofNat f.start
     else ("bytes in position " : Text) ++ ofNat f.start ++ "-" ++ ofNat (f.start + f.width - 1)) ++
    ": " ++ f.reason.message

/-- A decoder that has been given the first byte and those after it. -/
abbrev Decoder := UInt8 → Bytes → Segment

/-- The segments of a byte string, in order. -/
def segments (next : Decoder) (bs : Bytes) : List Segment :=
  chop (fun b r => let s := next b r; (s, r.drop (s.width - 1))) bs

/-- The characters of segments behind those already collected, or the first fault. `start` is the
index of the first segment, and `rest` are the bytes from there on. -/
def gather (decoder : Text) : List Segment → Nat → Bytes → Array Char → Except DecodeFault Text
  | [], _, _, acc => .ok acc.toList
  | s :: ss, start, rest, acc =>
    match s.reading with
    | .ok c => gather decoder ss (start + s.width) (rest.drop s.width) (acc.push c)
    | .error reason => .error ⟨decoder, rest.headD 0, start, s.width, reason⟩

/-- The text that a byte string stands for, or its first fault. `start` is the index that the first
byte has in the data it was taken from. -/
def strict (decoder : Text) (next : Decoder) (start : Nat) (bs : Bytes) :
    Except DecodeFault Text :=
  gather decoder (segments next bs) start bs #[]

/-- The text that a byte string stands for, with U+FFFD for each segment that stands for nothing. -/
def lossy (next : Decoder) (bs : Bytes) : Text :=
  (segments next bs).map fun s =>
    match s.reading with
    | .ok c => c
    | .error _ => '\uFFFD'

end EntryRef.Text
