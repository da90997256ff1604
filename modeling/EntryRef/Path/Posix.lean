import EntryRef.Text.Glyph

/-!
# Slash-separated paths

A path is an anchor and the names of its segments. Empty segments and `.` do not count, so that
paths that differ in them alone are equal; `..` stays, since it cannot be resolved without a file
system. Two slashes at the start, and no more than two, are an anchor of their own.

Names are lists, of characters in a `Posix` path and of glyphs in a `Raw` one. What is the same for
both is defined for `Slashed` paths in names of anything, among which a slash and a full stop are
known.
-/

namespace EntryRef.Path

open Text

/-- Where a slash-separated path starts. -/
inductive Anchor
  /-- At the current directory. -/
  | relative
  /-- At the root. -/
  | root
  /-- At two slashes, whose meaning is left to the system. -/
  | doubleRoot
deriving DecidableEq

/-- A slash-separated path. -/
structure Slashed (α : Type) where
  /-- Where the path starts. -/
  anchor : Anchor
  /-- The segments, without empty ones and without `.`. -/
  segments : List (List α)
deriving DecidableEq

/-- A slash-separated path in text. -/
abbrev Posix := Slashed Char

/-- A slash-separated path in glyphs. -/
abbrev Raw := Slashed Glyph

/-- A value of this kind is given for a path and is none. -/
structure NotAPath where
  kind : Text
deriving DecidableEq

/-- The words for it. -/
def NotAPath.message (e : NotAPath) : Text :=
  "expected str, bytes or os.PathLike object, not " ++ e.kind

section Names

variable {α : Type} [DecidableEq α]

/-- The names between separators that count. -/
def namesBetween (sep dot : α) (s : List α) : List (List α) :=
  (pieces sep s).filter fun p => !p.isEmpty && p != [dot]

/-- The anchor of what starts with so many slashes. -/
def anchorBehind (slash : α) (s : List α) : Anchor :=
  match (s.takeWhile (· == slash)).length with
  | 0 => .relative
  | 2 => .doubleRoot
  | _ => .root

namespace Slashed

/-- The path in its shortest form; the current directory is `.`. -/
def written (slash dot : α) (p : Slashed α) : List α :=
  let names := joined [slash] p.segments
  match p.anchor with
  | .relative => if names.isEmpty then [dot] else names
  | .root => slash :: names
  | .doubleRoot => slash :: slash :: names

/-- Does the path start at a root? -/
def isAbsolute (p : Slashed α) : Bool := p.anchor != .relative

/-- The path as seen from the directory `cwd`. -/
def absolute (p cwd : Slashed α) : Slashed α :=
  if p.isAbsolute then p else ⟨cwd.anchor, cwd.segments ++ p.segments⟩

/-- The name of the last segment, empty if there is none. -/
def name (p : Slashed α) : List α := p.segments.getLastD []

end Slashed

end Names

/-! ### Paths in text -/

/-- The segments of a text that count. -/
def namedSegments (sep : Char) (s : Text) : List Text := namesBetween sep '.' s

namespace Posix

/-- The anchor of a text. -/
def anchorOf (s : Text) : Anchor := anchorBehind '/' s

/-- Reads a path; every text is one. -/
def ofText (s : Text) : Posix := ⟨anchorOf s, namedSegments '/' s⟩

/-- The path in its shortest form; the current directory is `.`. -/
def toText (p : Posix) : Text := p.written '/' '.'

/-- The path as seen from the directory `cwd`. -/
def absolute (p cwd : Posix) : Posix := Slashed.absolute p cwd

/-- The path without its last segment. -/
def parent (p : Posix) : Posix := ⟨p.anchor, p.segments.dropLast⟩

end Posix

/-! ### Paths in glyphs -/

namespace Raw

/-- Reads a path; every list of glyphs is one. -/
def ofGlyphs (s : List Glyph) : Raw :=
  ⟨anchorBehind (.char '/') s, namesBetween (.char '/') (.char '.') s⟩

/-- Reads a path in text. -/
def ofText (s : Text) : Raw := ofGlyphs s.toGlyphs

/-- The path in its shortest form. -/
def toGlyphs (p : Raw) : List Glyph := p.written (.char '/') (.char '.')

/-- The path as seen from the directory `cwd`. -/
def absolute (p cwd : Raw) : Raw := Slashed.absolute p cwd

end Raw

/-- A path in text as one in glyphs. -/
def Posix.toRaw (p : Posix) : Raw := ⟨p.anchor, p.segments.map toGlyphs⟩

/-- A path in text may stand where one in glyphs is expected. -/
instance : Coe Posix Raw := ⟨Posix.toRaw⟩

end EntryRef.Path
