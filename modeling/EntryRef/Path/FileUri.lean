import EntryRef.Path.Windows
import EntryRef.Percent

/-!
# File URIs of paths

An absolute path is written as a URI with the scheme `file`. Its bytes are percent-encoded but for
unreserved characters and slashes, and the colon of a drive letter stays too. A network share is the
host.

A slash-separated path is encoded as the file system has it, so that the surrogates that stand for
bytes become these bytes again. A backslash-separated one is encoded as text, which has no
surrogates. Other paths have no file URI.
-/

namespace EntryRef.Path

open Text
open Glyph (Unencodable)

/-- The file URI of a slash-separated path in text, relative ones being seen from the directory
`cwd`. -/
def Posix.fileUri (p cwd : Posix) : Text :=
  "file://" ++ Percent.encode ['/'] (p.absolute cwd).toText

/-- A file URI has no query. -/
theorem Posix.question_not_mem_fileUri (p cwd : Posix) : '?' ∉ p.fileUri cwd := by
  intro h
  rcases List.mem_append.1 h with h | h
  · revert h; decide
  · rcases Percent.mem_encode h with h | h | h <;> revert h <;> decide

/-- The file URI of an absolute path that consists of so many bytes. -/
def uriOfBytes (bs : Bytes) : Text := "file://" ++ Percent.encodeBytes ['/'] bs

/-- The bytes of a slash-separated path as seen from the directory `cwd`. -/
def Raw.bytes (p cwd : Raw) : Except Unencodable Bytes :=
  Glyph.encode Glyph.escaped? (p.absolute cwd).toGlyphs

/-- The file URI of a slash-separated path, relative ones being seen from the directory `cwd`. -/
def Raw.fileUri (p cwd : Raw) : Except Unencodable Text :=
  (p.bytes cwd).map uriOfBytes

/-- The file URI of an absolute backslash-separated path. -/
def Windows.absoluteUri (p : Windows) : Except Unencodable Text :=
  match p.drive with
  | [.char c, .char ':'] =>
    (Glyph.encode Glyph.unescaped? ((p.toSlashes.drop 2).dropWhile (· == .char '/'))).map fun bs =>
      ("file:///" : Text) ++ c :: ':' :: '/' :: Percent.encodeBytes ['/'] bs
  | _ =>
    (Glyph.encode Glyph.unescaped? p.toSlashes).map fun bs =>
      "file:" ++ Percent.encodeBytes ['/'] bs

/-- The file URI of a backslash-separated path. One that is not absolute is seen from `cwd`, as far
as its segments go. -/
def Windows.fileUri (p : Windows) (cwd : Raw) : Except Unencodable Text :=
  if p.isAbsolute then p.absoluteUri else p.toRaw.fileUri cwd

end EntryRef.Path
