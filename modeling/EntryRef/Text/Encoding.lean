import EntryRef.Text.Utf8
import EntryRef.Trouble

/-!
# Text encodings

The encodings that are built in, their names (`Encoding.ofName`), and `Encoding.decode`. UTF-16 and
UTF-32 without a stated byte order look for a byte order mark and are little-endian without one. The
mark is not part of the text where it is looked for, and part of it elsewhere.

There are many more encodings, which a registry knows by their names. `Codecs` stands for it, and
`Codecs.find` asks it for what is not built in. A `Codec` of the registry may read data as it likes:
it may say where they are no text, and it may fail in another way.
-/

namespace EntryRef.Text

/-- The order of the bytes in a code unit. -/
inductive ByteOrder
  | little
  | big
deriving DecidableEq

/-- A way to write text in bytes. -/
inductive Encoding
  | ascii
  | latin1
  | utf8
  /-- UTF-8 that may start with a mark, which is skipped. -/
  | utf8Marked
  /-- UTF-16 in the stated byte order, or else in the order that a mark tells. -/
  | utf16 (order : Option ByteOrder)
  /-- UTF-32, likewise. -/
  | utf32 (order : Option ByteOrder)
deriving DecidableEq

/-! ### Names -/

/-- The form of an encoding's name that is looked up: lower case, with a single underscore for
every run of characters that are neither ASCII letters or digits nor dots, and none at the ends. -/
def encodingKey (name : Text) : Text :=
  let step (acc : Array Char × Bool) (c : Char) : Array Char × Bool :=
    if c.isAlphanum || c == '.' then
      ((if acc.2 && !acc.1.isEmpty then acc.1.push '_' else acc.1).push c.toLower, false)
    else (acc.1, true)
  (name.foldl step (#[], false)).1.toList

/-- The names of an encoding: the proper one, which has no dot, and others. -/
structure EncodingNames where
  /-- The encoding, or nothing for a way to write bytes in bytes. -/
  encoding : Option Encoding
  proper : String
  others : List String

/-- The names of the encodings, in the form that `encodingKey` gives. -/
def encodingNames : List EncodingNames :=
  [⟨some .ascii, "ascii", ["646", "ansi_x3.4_1968", "ansi_x3_4_1968", "ansi_x3.4_1986", "cp367",
      "csascii", "ibm367", "iso646_us", "iso_646.irv_1991", "iso_ir_6", "us", "us_ascii"]⟩,
    ⟨some .latin1, "latin_1", ["8859", "cp819", "csisolatin1", "ibm819", "iso8859", "iso8859_1",
      "iso_8859_1", "iso_8859_1_1987", "iso_ir_100", "l1", "latin", "latin1"]⟩,
    ⟨some .utf8, "utf_8", ["u8", "utf", "utf8", "utf8_ucs2", "utf8_ucs4", "cp65001"]⟩,
    ⟨some .utf8Marked, "utf_8_sig", []⟩,
    ⟨some (.utf16 none), "utf_16", ["u16", "utf16"]⟩,
    ⟨some (.utf16 (some .little)), "utf_16_le", ["unicodelittleunmarked", "utf_16le"]⟩,
    ⟨some (.utf16 (some .big)), "utf_16_be", ["unicodebigunmarked", "utf_16be"]⟩,
    ⟨some (.utf32 none), "utf_32", ["u32", "utf32"]⟩,
    ⟨some (.utf32 (some .little)), "utf_32_le", ["utf_32le"]⟩,
    ⟨some (.utf32 (some .big)), "utf_32_be", ["utf_32be"]⟩,
    ⟨none, "hex_codec", ["hex"]⟩,
    ⟨none, "base64_codec", ["base64", "base_64"]⟩,
    ⟨none, "bz2_codec", ["bz2"]⟩,
    ⟨none, "quopri_codec", ["quopri", "quoted_printable", "quotedprintable"]⟩,
    ⟨none, "rot_13", ["rot13"]⟩,
    ⟨none, "uu_codec", ["uu"]⟩,
    ⟨none, "zlib_codec", ["zip", "zlib"]⟩]

/-- Is `key` a name of the encoding? A dot may stand for the underscore of any name but the proper
one. -/
def EncodingNames.contain (names : EncodingNames) (key : Text) : Bool :=
  let plain := key.map fun c => if c = '.' then '_' else c
  names.proper.toList == key || names.others.any fun n => n.toList == key || n.toList == plain

/-- Why no text encoding is found. -/
inductive EncodingFault
  /-- There is no encoding of that name. -/
  | unknown (name : Text)
  /-- The name is that of a way to write bytes in bytes. -/
  | notText (name : Text)
deriving DecidableEq

/-- The words for a fault. -/
def EncodingFault.message : EncodingFault → Text
  | .unknown name => "unknown encoding: " ++ name
  | .notText name =>
    "'" ++ name ++ "' is not a text encoding; use codecs.decode() to handle arbitrary codecs"

/-- The encoding of a name. -/
def Encoding.ofName (name : Text) : Except EncodingFault Encoding :=
  match encodingNames.find? fun names => names.contain (encodingKey name) with
  | none => .error (.unknown name)
  | some names =>
    match names.encoding with
    | some e => .ok e
    | none => .error (.notText name)

/-! ### Decoders -/

/-- The decoder of ASCII. -/
def asciiNext : Decoder := fun b _ =>
  if b < 0x80 then ⟨1, .ok (Char.ofNat b.toNat)⟩ else ⟨1, .error .notAscii⟩

/-- The decoder of Latin-1, in which every byte is a character. -/
def latin1Next : Decoder := fun b _ => ⟨1, .ok (Char.ofNat b.toNat)⟩

/-- The number that some bytes write in the given order. -/
def unit (order : ByteOrder) (bs : Bytes) : Nat :=
  match order with
  | .little => bs.foldr (fun b n => 256 * n + b.toNat) 0
  | .big => bs.foldl (fun n b => 256 * n + b.toNat) 0

/-- The decoder of UTF-16. -/
def utf16Next (order : ByteOrder) : Decoder := fun b r =>
  match r with
  | [] => ⟨1, .error .truncated⟩
  | c :: r =>
    let u := unit order [b, c]
    if u < 0xd800 ∨ 0xe000 ≤ u then ⟨2, .ok (Char.ofNat u)⟩
    else if 0xdc00 ≤ u then ⟨2, .error .loneTrailer⟩
    else match r with
      | d :: e :: _ =>
        let v := unit order [d, e]
        if 0xdc00 ≤ v ∧ v < 0xe000 then
          ⟨4, .ok (Char.ofNat (0x10000 + (u - 0xd800) * 0x400 + (v - 0xdc00)))⟩
        else ⟨2, .error .loneLeader⟩
      | short => ⟨2 + short.length, .error .endOfData⟩

/-- The decoder of UTF-32. -/
def utf32Next (order : ByteOrder) : Decoder := fun b r =>
  match r with
  | c :: d :: e :: _ =>
    let u := unit order [b, c, d, e]
    if 0xd800 ≤ u ∧ u < 0xe000 then ⟨4, .error .surrogate⟩
    else if u < 0x110000 then ⟨4, .ok (Char.ofNat u)⟩
    else ⟨4, .error .outOfRange⟩
  | short => ⟨1 + short.length, .error .truncated⟩

/-! ### Byte order marks -/

/-- The byte order that data tell by a mark of two bytes, and the data behind the mark. -/
def order16 : Bytes → ByteOrder × Nat × Bytes
  | 0xff :: 0xfe :: r => (.little, 2, r)
  | 0xfe :: 0xff :: r => (.big, 2, r)
  | r => (.little, 0, r)

/-- The byte order that data tell by a mark of four bytes, and the data behind the mark. -/
def order32 : Bytes → ByteOrder × Nat × Bytes
  | 0xff :: 0xfe :: 0x00 :: 0x00 :: r => (.little, 4, r)
  | 0x00 :: 0x00 :: 0xfe :: 0xff :: r => (.big, 4, r)
  | r => (.little, 0, r)

/-- UTF-16 data in a known order, from the byte of index `start` on. -/
def decode16 (order : ByteOrder) (start : Nat) (bs : Bytes) : Except DecodeFault Text :=
  strict (match order with | .little => "utf-16-le" | .big => "utf-16-be") (utf16Next order) start
    bs

/-- UTF-32 data in a known order, from the byte of index `start` on. -/
def decode32 (order : ByteOrder) (start : Nat) (bs : Bytes) : Except DecodeFault Text :=
  strict (match order with | .little => "utf-32-le" | .big => "utf-32-be") (utf32Next order) start
    bs

/-- Reads data in an encoding. -/
def Encoding.decode (e : Encoding) (bs : Bytes) : Except DecodeFault Text :=
  match e with
  | .ascii => strict "ascii" asciiNext 0 bs
  | .latin1 => strict "latin-1" latin1Next 0 bs
  | .utf8 => Utf8.decode bs
  | .utf8Marked =>
    match bs with
    | 0xef :: 0xbb :: 0xbf :: r => Utf8.decode r
    | _ => Utf8.decode bs
  | .utf16 (some order) => decode16 order 0 bs
  | .utf16 none => let (order, start, r) := order16 bs; decode16 order start r
  | .utf32 (some order) => decode32 order 0 bs
  | .utf32 none => let (order, start, r) := order32 bs; decode32 order start r

/-! ### Further encodings -/

/-- Why data are not read. -/
inductive CodecFault
  /-- They are no text in the encoding. -/
  | notText (why : DecodeFault)
  /-- The encoding fails in another way. -/
  | trouble (why : Trouble)

/-- A way to read data as text. -/
abbrev Codec := Bytes → Except CodecFault Text

/-- A built-in encoding as a way to read data. -/
def Encoding.codec (e : Encoding) : Codec := fun bs => (e.decode bs).mapError .notText

/-- The encodings that are not built in, by their names. -/
abbrev Codecs := Text → Option Codec

namespace Codecs

/-- No encoding but those that are built in. -/
def builtIn : Codecs := fun _ => none

/-- The encoding of a name. What is built in comes first. -/
def find (codecs : Codecs) (name : Text) : Except EncodingFault Codec :=
  match Encoding.ofName name with
  | .ok e => .ok e.codec
  | .error (.unknown name) =>
    match codecs name with
    | some codec => .ok codec
    | none => .error (.unknown name)
  | .error why => .error why

/-- What is built in does not depend on the registry. -/
theorem find_of_ofName (codecs : Codecs) {name : Text} {e : Encoding}
    (h : Encoding.ofName name = .ok e) : codecs.find name = .ok e.codec := by
  rw [find, h]

end Codecs

end EntryRef.Text
