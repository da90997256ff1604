import EntryRef.Archive.Handle
import EntryRef.Reference.Change
import EntryRef.Text.Encoding

/-!
# What archives contain

The three operations on the archive of a reference: `readText` reads an entry as text, `extract`
copies an entry to a file in a scratch directory, and `listEntries` gives references to all entries.
Each opens the archive for its own duration.
-/

namespace EntryRef

open Text

variable {table : FlagTable}

/-- The entry of an open archive that a reference names. -/
def findEntry (u : Reference table) (path : Text) (h : Handle table) :
    Traced (Except (Failure table) (Entry table)) :=
  match u.entryName? with
  | none => pure (.error (.archive ⟨.noEntryNamed u.toText, some path, some u⟩))
  | some name => do
    match ← h.lookup name with
    | none => return .error (.archive ⟨.noSuchEntry name path, some path, some u⟩)
    | some entry => return .ok entry

/-- Turns a trouble with the data of an entry into a problem of the archive, and so a problem with
reading that the archive tells by itself; other failures stay what they are. -/
def readFailure (u : Reference table) (path : Text) (problem : Trouble → ArchiveProblem) :
    Failure table → Failure table
  | .trouble why =>
    if why.kind.isReading then .archive ⟨problem why, some path, some u⟩ else .trouble why
  | .archive e =>
    if e.problem.kind = .reading then
      .archive ⟨problem ⟨.archive, e.problem.message⟩, some path, some u⟩
    else .archive e
  | e => e

/-! ### Reading -/

/-- The encoding that entries are read in unless another one is asked for. -/
def defaultEncoding : Text := "utf-8"

/-- The data of the entry that a reference names, with the path of the archive. -/
def readData (opener : Opener table) (u : Reference table) :
    Traced (Except (Failure table) (Text × Bytes)) :=
  withArchive opener u .error fun path h => do
    match ← findEntry u path h with
    | .error e => return .error e
    | .ok entry =>
      match entry.readAll with
      | .error why => return .error (readFailure u path (.unreadable entry.name path) why)
      | .ok data => return .ok (path, data)

/-- Data of an entry as text. No data are no text, in any encoding. -/
def textOf (codecs : Codecs) (u : Reference table) (path encoding : Text) (data : Bytes) :
    Except (Failure table) Text :=
  if encoding.contains '\x00' then .error (.trouble ⟨.wrongValue, "embedded null character"⟩)
  else if data.isEmpty then .ok []
  else match codecs.find encoding with
    | .error why => .error (.trouble ⟨.unknownEncoding, why.message⟩)
    | .ok codec =>
      match codec data with
      | .ok t => .ok t
      | .error (.notText why) =>
        .error (.archive ⟨.notText (u.inner?.getD []) path encoding why, some path, some u⟩)
      | .error (.trouble why) => .error (.trouble why)

/-- The text of the entry that a reference names. No encoding, or an empty name of one, stands for
the default. -/
def readText (codecs : Codecs) (opener : Opener table) (u : Reference table)
    (encoding : Option Text) : Traced (Except (Failure table) Text) := do
  let name := match encoding with
    | none | some [] => defaultEncoding
    | some name => name
  match ← readData opener u with
  | .error e => return .error e
  | .ok (path, data) => return textOf codecs u path name data

/-! ### Extracting -/

/-- What an extraction leaves: the path of the file or a failure, the scratch directory and the
tokens that were not used. -/
structure Extraction (table : FlagTable) where
  result : Except (Failure table) Text
  directory : Scratch.Directory
  tokens : List Text

/-- Copies an entry to a new file. The file is named after the last segment of the entry's name:
what stands before the first dot, a token, and what stands behind the last dot. A path to it that
leads elsewhere on the system is a trouble like any other. -/
def extractEntry (u : Reference table) (path : Text) (entry : Entry table)
    (d : Scratch.Directory) (tokens : List Text) : Traced (Extraction table) :=
  let segment := afterLast '/' entry.name
  if !segment.contains '.' then
    pure ⟨.error (.archive ⟨.noExtension entry.name path, some path, some u⟩), d, tokens⟩
  else
    match d.create (before '.' segment) ('.' :: afterLast '.' segment) tokens with
    | (.error why, d, tokens) => pure ⟨.error (.scratch why), d, tokens⟩
    | (.ok made, d, tokens) =>
      let target := made.path.toText
      let failure := readFailure u path (.notExtracted entry.name path target)
      match entry.stream, (d.size made.path).mapError .trouble with
      | .error why, _ | .ok _, .error why => pure ⟨.error (failure why), d, tokens⟩
      | .ok copied, .ok _ =>
        let c := copied copySize
        let d := d.write made.name c.writes.flatten
        match c.fault with
        | some why => pure ⟨.error (failure why), d, tokens⟩
        | none => do
          Traced.note (.extracted u.toText target)
          return ⟨.ok target, d, tokens⟩

/-- Copies the entry that a reference names to a new file in a scratch directory. -/
def extract (opener : Opener table) (u : Reference table) (d : Scratch.Directory)
    (tokens : List Text) : Traced (Extraction table) :=
  withArchive opener u (fun e => ⟨.error e, d, tokens⟩) fun path h => do
    match ← findEntry u path h with
    | .error e => return ⟨.error e, d, tokens⟩
    | .ok entry => extractEntry u path entry d tokens

/-! ### Listing -/

/-- References to the entries of an archive, with the flags of the given reference. -/
def listEntries (opener : Opener table) (u : Reference table) :
    Traced (Except (Failure table) (List (Reference table))) :=
  withArchive opener u .error fun _ h => do
    match ← h.list with
    | .error why => return .error why
    | .ok entries => return .ok (entries.map fun e => u.withEntry e.name)

end EntryRef
