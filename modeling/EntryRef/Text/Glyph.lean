import EntryRef.Text.Utf8

/-!
# Glyphs

The name of a file need not be text. A file system gives bytes, and a byte that is part of no
character is read as a surrogate from U+DC80 to U+DCFF, which stands alone then. A `Glyph` is a
character or such a surrogate; callers may hand in the other surrogates, too.

`Glyph.encode` writes a list of glyphs in UTF-8. A surrogate has no form there. It is written as the
byte that it was read from if `escaped?` is asked for it, and otherwise the list is refused.
-/

namespace EntryRef

open Text

/-- A character, or a surrogate that stands alone. -/
inductive Glyph
  | char (c : Char)
  /-- The surrogate so many places behind U+D800. -/
  | surrogate (n : Fin 0x800)
deriving DecidableEq

/-- The glyphs of a text are its characters. -/
def Text.toGlyphs (s : Text) : List Glyph := s.map .char

namespace Glyph

/-- Is the glyph a surrogate? -/
def isSurrogate : Glyph → Bool
  | .char _ => false
  | .surrogate _ => true

/-- The byte that a surrogate was read from; U+DC80 stands for the byte 80. -/
def escaped? (n : Fin 0x800) : Option UInt8 :=
  if 0x480 ≤ n.val ∧ n.val < 0x500 then some (UInt8.ofNat (n.val - 0x400)) else none

/-- No surrogate stands for a byte. -/
def unescaped? (_ : Fin 0x800) : Option UInt8 := none

/-- The surrogates from the index `start` up to the index `stop`, of which `first` is the first one,
are not encoded. -/
structure Unencodable where
  first : Fin 0x800
  start : Nat
  stop : Nat
deriving DecidableEq

/-- The words for it. -/
def Unencodable.message (e : Unencodable) : Text :=
  "'utf-8' codec can't encode " ++
    (if e.stop = e.start + 1 then
      "character '\\u" ++ hex 4 (0xd800 + e.first.val) ++ "' in position " ++ ofNat e.start
    else "characters in position " ++ ofNat e.start ++ '-' :: ofNat (e.stop - 1)) ++
    ": surrogates not allowed"

/-- Encodes the glyphs from the index `i` on. The first surrogate without a byte is told with those
that follow it without a gap. -/
def encodeFrom (byte? : Fin 0x800 → Option UInt8) : Nat → List Glyph → Except Unencodable Bytes
  | _, [] => .ok []
  | i, .char c :: r => (encodeFrom byte? (i + 1) r).map (String.utf8EncodeChar c ++ ·)
  | i, .surrogate n :: r =>
    match byte? n with
    | some b => (encodeFrom byte? (i + 1) r).map (b :: ·)
    | none => .error ⟨n, i, i + 1 + (r.takeWhile isSurrogate).length⟩

/-- Encodes a list of glyphs, the surrogates as the bytes that `byte?` gives for them. -/
def encode (byte? : Fin 0x800 → Option UInt8) (s : List Glyph) : Except Unencodable Bytes :=
  encodeFrom byte? 0 s

end Glyph

end EntryRef
