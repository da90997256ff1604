import EntryRef.Path.Posix

/-!
# Backslash-separated paths

A path of this kind has a drive, which may be a letter with a colon or a network share, a root or
none, and segments. Slashes count as backslashes. Names are made of glyphs.
-/

namespace EntryRef.Path

open Text

/-- A backslash-separated path. -/
structure Windows where
  /-- The drive, empty if there is none. -/
  drive : List Glyph
  /-- Does the path start at the root of its drive? -/
  rooted : Bool
  /-- The segments, without empty ones and without `.`. -/
  segments : List (List Glyph)
deriving DecidableEq

namespace Windows

/-- The start of an extended path: a prefix that is taken as it is, and the rest. A prefix for
network shares leaves one backslash to the rest. -/
def extended (s : List Glyph) : List Glyph × List Glyph :=
  match s with
  | .char '\\' :: .char '\\' :: .char '?' :: .char '\\' :: .char 'U' :: .char 'N' :: .char 'C' ::
      .char '\\' :: r =>
    (Text.toGlyphs ['\\', '\\', '?', '\\', 'U', 'N', 'C'], .char '\\' :: .char '\\' :: r)
  | .char '\\' :: .char '\\' :: .char '?' :: .char '\\' :: r =>
    (Text.toGlyphs ['\\', '\\', '?', '\\'], r)
  | s => ([], s)

/-- The network share at the start of a text, and what follows its backslash: two backslashes, a
host, a backslash and a share, none of them empty. -/
def share? (s : List Glyph) : Option (List Glyph × List Glyph) :=
  match s with
  | .char '\\' :: .char '\\' :: r =>
    if r.head? = some (.char '\\') then none
    else do
      let rest ← after? (.char '\\') r
      let host := before (.char '\\') r
      if rest.head? = some (.char '\\') then none
      else
        let name := before (.char '\\') rest
        return (.char '\\' :: .char '\\' :: host ++ .char '\\' :: name,
          (after? (.char '\\') rest).getD [])
  | _ => none

/-- The drive letter with its colon at the start of a text, and the rest. -/
def letter (s : List Glyph) : List Glyph × List Glyph :=
  match s with
  | .char c :: .char ':' :: r => if c.isAlpha then ([.char c, .char ':'], r) else ([], s)
  | s => ([], s)

/-- The drive, the root and the rest of a list that uses backslashes alone. -/
def anchored (s : List Glyph) : List Glyph × Bool × List Glyph :=
  let (ext, s) := extended s
  match share? s with
  | some (drive, rest) =>
    (if ext.isEmpty then drive else ext ++ drive.drop 1, true, rest)
  | none =>
    let (drive, rest) := letter s
    (ext ++ drive, rest.head? == some (.char '\\'), rest.dropWhile (· == .char '\\'))

/-- Reads a path; every list of glyphs is one. -/
def ofGlyphs (s : List Glyph) : Windows :=
  let (drive, rooted, rest) := anchored (s.map fun g => if g = .char '/' then .char '\\' else g)
  ⟨drive, rooted, namesBetween (.char '\\') (.char '.') rest⟩

/-- Reads a path in text. -/
def ofText (s : Text) : Windows := ofGlyphs s.toGlyphs

/-- The path in its shortest form; the current directory is `.`. -/
def toGlyphs (p : Windows) : List Glyph :=
  let all := p.drive ++ (if p.rooted then [.char '\\'] else []) ++ joined [.char '\\'] p.segments
  if all.isEmpty then [.char '.'] else all

/-- The path with slashes. -/
def toSlashes (p : Windows) : List Glyph :=
  p.toGlyphs.map fun g => if g = .char '\\' then .char '/' else g

/-- Does the path name its drive and start at its root? -/
def isAbsolute (p : Windows) : Bool := p.rooted && !p.drive.isEmpty

/-- The segments of the path when they are taken for those of a slash-separated one: what stands
before them counts as a segment. -/
def toRaw (p : Windows) : Raw :=
  let start := p.drive ++ (if p.rooted then [.char '\\'] else [])
  ⟨.relative, if start.isEmpty then p.segments else start :: p.segments⟩

end Windows

end EntryRef.Path
