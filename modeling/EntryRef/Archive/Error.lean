import EntryRef.Reference.Basic
import EntryRef.Scratch.Directory
import EntryRef.Text.Decoding

/-!
# Errors of archives

`ArchiveError` is what goes wrong with an archive or an entry of it: what happened, the path of the
archive and the reference that was asked for. `Failure` is all that may come out of an operation on
an archive; besides errors of archives these are the troubles that nobody deals with.
-/

namespace EntryRef

open Text

/-- The kinds of problems. -/
inductive ArchiveProblem.Kind
  | opening
  | lookup
  | naming
  | reading
  /-- A problem of none of the other kinds. -/
  | other
deriving DecidableEq

/-- What happened to an archive or to an entry of it. -/
inductive ArchiveProblem
  /-- The file is not an archive. -/
  | notAnArchive (path : Text) (why : Trouble)
  /-- The file cannot be opened. -/
  | unopened (path : Text) (why : Trouble)
  /-- The archive of a reference cannot be opened. -/
  | unopenedFor (path reference : Text) (why : Trouble)
  /-- An opener, or what it has opened, says by itself what is wrong. -/
  | told (kind : ArchiveProblem.Kind) (words : Text)
  /-- The reference does not name an entry. -/
  | noEntryNamed (reference : Text)
  /-- There is no such entry. -/
  | noSuchEntry (name path : Text)
  /-- The name of the entry has no extension. -/
  | noExtension (name path : Text)
  /-- The data of the entry cannot be read. -/
  | unreadable (name path : Text) (why : Trouble)
  /-- The data of the entry cannot be copied to a file. -/
  | notExtracted (name path target : Text) (why : Trouble)
  /-- The data of the entry are not text in the encoding. -/
  | notText (inner path encoding : Text) (why : DecodeFault)
deriving DecidableEq

namespace ArchiveProblem

/-- The kind of a problem. -/
def kind : ArchiveProblem → Kind
  | .notAnArchive .. | .unopened .. | .unopenedFor .. => .opening
  | .told kind _ => kind
  | .noEntryNamed .. | .noSuchEntry .. => .lookup
  | .noExtension .. => .naming
  | .unreadable .. | .notExtracted .. | .notText .. => .reading

/-- What a problem comes from. -/
inductive Cause
  | trouble (why : Trouble)
  | decoding (why : DecodeFault)
deriving DecidableEq

/-- What a problem comes from, if it comes from something else. -/
def cause? : ArchiveProblem → Option Cause
  | .notAnArchive _ why | .unopened _ why | .unopenedFor _ _ why | .unreadable _ _ why
  | .notExtracted _ _ _ why => some (.trouble why)
  | .notText _ _ _ why => some (.decoding why)
  | .told .. | .noEntryNamed _ | .noSuchEntry .. | .noExtension .. => none

/-- The words for a problem. -/
def message : ArchiveProblem → Text
  | .notAnArchive path _ => "Not a zip file: '" ++ path ++ "'"
  | .unopened path why => "Failed to open archive '" ++ path ++ "': " ++ why.words
  | .unopenedFor path reference why =>
    "Failed to open archive '" ++ path ++ "' for url '" ++ reference ++ "': " ++ why.words
  | .told _ words => words
  | .noEntryNamed reference => "Url '" ++ reference ++ "' does not reference an entry in an archive"
  | .noSuchEntry name path => "Could not find entry '" ++ name ++ "' in archive '" ++ path ++ "'"
  | .noExtension name path =>
    "Entry name '" ++ name ++ "' in archive '" ++ path ++ "' has no extension"
  | .unreadable name path why =>
    "Failed to read '" ++ name ++ "' from archive '" ++ path ++ "': " ++ why.words
  | .notExtracted name path target why =>
    "Failed to extract '" ++ name ++ "' from archive '" ++ path ++ "' to '" ++ target ++ "': " ++
      why.words
  | .notText inner path encoding why =>
    "Entry '" ++ inner ++ "' in archive '" ++ path ++ "' is not " ++ encoding ++ " text: " ++
      why.message

end ArchiveProblem

/-- An error of an archive. -/
structure ArchiveError (table : FlagTable) where
  /-- What happened. -/
  problem : ArchiveProblem
  /-- The path of the archive, where it is known. -/
  path : Option Text
  /-- The reference that was asked for, where it is known. -/
  reference : Option (Reference table)
deriving DecidableEq

/-- What may come out of an operation on an archive. -/
inductive Failure (table : FlagTable)
  /-- The reference does not tell the path of an archive. -/
  | authority (why : Authority.Fault)
  /-- Something is wrong with the archive or the entry. -/
  | archive (e : ArchiveError table)
  /-- Something else is wrong. -/
  | trouble (why : Trouble)
  /-- The scratch directory does not take a file. -/
  | scratch (why : Scratch.Fault)
deriving DecidableEq

namespace Failure

/-- The words for a failure. -/
def message {table : FlagTable} : Failure table → Text
  | .authority why => why.message
  | .archive e => e.problem.message
  | .trouble why => why.words
  | .scratch why => why.message

end Failure

end EntryRef
