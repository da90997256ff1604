import EntryRef.Path.FileUri
import EntryRef.Reference.Basic

/-!
# Normalized identifiers

`Reference.normalize` finds the reference that an identifier of any kind stands for. References and
files have one; identifiers with another scheme, or without one, are left to others.
-/

namespace EntryRef

open Text

/-- What may identify a file or an entry. -/
inductive Identifying (table : FlagTable)
  /-- A text with or without a scheme. -/
  | text (s : Text)
  /-- A slash-separated path. -/
  | posix (p : Path.Raw)
  /-- A backslash-separated path. -/
  | windows (p : Path.Windows)
  /-- A reference. -/
  | reference (u : Reference table)

namespace Reference

variable {table : FlagTable}

/-- The reference that a written identifier stands for: one with the scheme of references is read
without its fragment, and one with the scheme of files is a locator. -/
def normalizeText (table : FlagTable) (s : Text) : Except Malformed (Option (Reference table)) :=
  match Identifier.fault? s with
  | some why => .error (.fault s why)
  | none =>
    let (found, specific) := Identifier.splitScheme s
    if found = some scheme then (parse table (scheme ++ ':' :: before '#' specific)).map some
    else if found = some "file".toList then (parse table (scheme ++ ':' :: s)).map some
    else .ok none

/-- The reference of a file, given by the file URI of its path. -/
def normalizeUri (table : FlagTable) :
    Except Glyph.Unencodable Text → Except Malformed (Option (Reference table))
  | .ok uri => normalizeText table uri
  | .error why => .error (.unencodable why)

/-- The reference that an identifier stands for, if it is for a file or an entry. -/
def normalize (cwd : Path.Raw) : Identifying table → Except Malformed (Option (Reference table))
  | .reference u => .ok (some u)
  | .text s => normalizeText table s
  | .posix p => normalizeUri table (p.fileUri cwd)
  | .windows p => normalizeUri table (p.fileUri cwd)

end Reference

end EntryRef
