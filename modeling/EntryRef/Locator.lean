import EntryRef.Authority
import EntryRef.Identifier
import EntryRef.Percent

/-!
# Locators

A locator says where an entry is: an identifier for an archive, an exclamation mark, and the path of
the entry inside. Without an exclamation mark it is the identifier of a plain file.

This module reads the parts of a locator. `archivePath` is the one that can fail: an archive named
by a `file` identifier may have a malformed host.
-/

namespace EntryRef.Locator

open Text

/-- The identifier of the archive: what stands before the first exclamation mark. -/
def archive (loc : Text) : Text := before '!' loc

/-- The path inside the archive: what stands between the first exclamation mark and the next. -/
def inner? (loc : Text) : Option Text := (after? '!' loc).map (before '!')

theorem inner?_subset {loc p : Text} (h : inner? loc = some p) : p ⊆ loc := by
  obtain ⟨r, hr, rfl⟩ := Option.map_eq_some_iff.1 h
  exact fun c hc => after?_subset hr (before_subset '!' r hc)

/-- The name of the entry that an inner path leads to: unescaped, without leading slashes. -/
def entryName? (loc : Text) : Option Text :=
  (inner? loc).map fun p => (Percent.decode p).dropWhile (· == '/')

/-- What stands behind the last slash. -/
def fileName (loc : Text) : Text := afterLast '/' loc

/-- What stands behind the last dot of a file's name, if it has one. -/
def extension? (name : Text) : Option Text :=
  if name.contains '.' then some (afterLast '.' name) else none

/-- Drops the slash before a drive letter and its colon. -/
def plainDrive : Text → Text
  | '/' :: c :: ':' :: r => if c.isAlpha then c :: ':' :: r else '/' :: c :: ':' :: r
  | s => s

/-- The still escaped path of a `file` identifier, given what stands behind the scheme's colon. Tabs
and line breaks do not count, two slashes start an authority, and a query or a fragment ends the
path. -/
def filePath (rest : Text) : Except Authority.Fault Text :=
  let path (s : Text) : Text := before '?' (before '#' s)
  match rest.filter fun c => c != '\t' && c != '\r' && c != '\n' with
  | '/' :: '/' :: s =>
    let inHost (c : Char) : Bool := c != '/' && c != '?' && c != '#'
    match Authority.fault? (s.takeWhile inHost) with
    | some fault => .error fault
    | none => .ok (path (s.dropWhile inHost))
  | s => .ok (path s)

/-- The path that an archive's identifier stands for. -/
def archivePath (loc : Text) : Except Authority.Fault Text :=
  match Identifier.splitScheme (archive loc) with
  | (some scheme, rest) =>
    if scheme = "file".toList then (filePath rest).map fun p => plainDrive (Percent.decode p)
    else .ok (Percent.decode rest)
  | (none, all) => .ok (Percent.decode all)

end EntryRef.Locator
