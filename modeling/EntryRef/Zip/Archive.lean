import EntryRef.Archive.Handle
import EntryRef.Zip.Directory
import EntryRef.Zip.Reading

/-!
# Archives in files

An archive is a file whose directory has been read. `Archive.handle` is what the operations on
archives see of it, and `opener` opens the archives among some files. Members of the methods that
are not built in are decompressed by the tools that it is given.

Of members with one name the last one is found. Directories, hidden files and the metadata of a
packing program are not listed.
-/

namespace EntryRef.Zip

open Text

variable {table : FlagTable}

/-- An archive that has been opened. -/
structure Archive where
  /-- The path of the file. -/
  path : Text
  /-- The file. -/
  file : Bytes
  /-- The members. -/
  members : List Member
  /-- Has the archive been closed? -/
  closed : Bool
  /-- What decompresses members of further methods. -/
  tools : Tools

/-! ### Members -/

/-- The size of a member's header, without its name and its extra data. -/
def headerSize : Nat := 30

/-- The number of the method that stores data as they are. -/
def storeMethod : Nat := 0

/-- The number of the method that compresses data, and is built in. -/
def deflateMethod : Nat := 8

/-- The number of the first method that is left to a library. -/
def bzip2Method : Nat := 12

/-- The number of the second one. -/
def lzmaMethod : Nat := 14

/-- The place of a member's header, if the file can be read there. -/
def headerPlace (m : Member) : Except Fault Nat :=
  if m.start < -0x8000000000000000 ∨ 0x8000000000000000 ≤ m.start then .error .beyondNumbers
  else if m.start < 0 then .error .beforeStart
  else .ok m.start.toNat

/-- The place behind a member's header, of which the name has been compared with the directory's. -/
def checkHeader (file : Bytes) (m : Member) : Except Fault Nat := do
  let place ← headerPlace m
  let header := slice place headerSize file
  if header.length < headerSize then throw .shortHeader
  if !hasMark header 3 4 then throw .badHeaderMark
  let name := slice (place + headerSize) (field header 26 2) file
  let behindName := place + headerSize + name.length
  let extra := slice behindName (field header 28 2) file
  if m.hasFlag 0x20 then throw .patched
  if m.hasFlag 0x40 then throw .strongEncryption
  if (← nameText (field header 6 2) name) ≠ m.storedName then throw (.otherName m.storedName name)
  return behindName + extra.length

/-- The form of data that are written by a method. -/
def formOf (tools : Tools) (method : Nat) (data : Bytes) : Except Fault Form :=
  if method = storeMethod then .ok .stored
  else if method = deflateMethod then .ok (.deflated (Deflate.inflate data))
  else if method = bzip2Method then
    match tools.bzip2 with
    | some u => .ok (.packed u [])
    | none => .error (.noLibrary "bz2")
  else if method = lzmaMethod then
    match tools.lzma with
    | some u => .ok (.packed u.val [])
    | none => .error (.noLibrary "lzma")
  else .error .method

/-- A reader of a member's data. -/
def openMember (tools : Tools) (file : Bytes) (m : Member) : Except Fault Reader := do
  let place ← checkHeader file m
  if m.stop < place + m.compressedSize then throw (.overlap m.storedName)
  if m.hasFlag 1 then
    match m.shown? with
    | none => throw .emptyName
    | some shown => throw (.encrypted shown)
  let data := file.drop place
  let form ← formOf tools m.method (data.take m.compressedSize)
  return {
    name := m.name
    expected := m.crc
    file := data
    compressedLeft := m.compressedSize
    pulled := 0
    used := 0
    form := form
    left := m.size
    crc := 0
    ended := false
    pending := [] }

namespace Archive

/-- Opens the archive in a file. -/
def ofFile (tools : Tools) (path : Text) (file : Bytes) : Except Fault Archive :=
  (readDirectory file).map fun members => ⟨path, file, members, false, tools⟩

/-- Closes an archive. -/
def close (a : Archive) : Archive := { a with closed := true }

/-- How an archive is shown. -/
def shown (a : Archive) : Text := "<ZipArchive " ++ a.path ++ ">"

/-- A reader of a member's data. -/
def openMember (a : Archive) (m : Member) : Except Fault Reader :=
  if a.closed then .error .closed else Zip.openMember a.tools a.file m

/-- All data of a member. -/
def readMember (a : Archive) (m : Member) : Except Fault Bytes :=
  match a.openMember m with
  | .error e => .error e
  | .ok r => r.readAll.map (·.1)

/-- The member of a name, with or without leading slashes. -/
def member? (a : Archive) (name : Text) : Option Member :=
  a.members.reverse.find? fun m => m.name = name.dropWhile (· == '/')

/-- The members that are listed, or nothing where a name is empty. -/
def files (a : Archive) : Except Fault (List Member) :=
  if a.members.any fun m => m.isDirectory?.isNone then .error .emptyName
  else .ok (a.members.filter fun m => m.isDirectory? != some true && !m.isHidden)

/-- A member as operations on archives see it. -/
def entry (a : Archive) (m : Member) : Entry table where
  name := m.name
  readAll := (a.readMember m).mapError fun e => .trouble e.trouble
  stream :=
    match a.openMember m with
    | .error e => .error (.trouble e.trouble)
    | .ok r => .ok fun size => (Reader.source.copy size r).mapFault .trouble

/-- An archive as operations on archives see it. -/
def handle (a : Archive) : Handle table where
  entry? name := (a.member? name).map a.entry
  entries :=
    match a.files with
    | .error e => .error (.trouble e.trouble)
    | .ok ms => .ok (ms.map a.entry)

end Archive

/-- How an entry is shown. -/
def shownEntry (m : Member) : Text := "<ZipEntry " ++ m.name ++ ">"

/-! ### Opening -/

/-- The files that there are: the data at each path, or the number of the refusal to open it. -/
abbrev Files := List (Text × Except Nat Bytes)

/-- The data of the file at a path. -/
def readFile (files : Files) (path : Text) : Except Trouble Bytes :=
  if path.contains '\x00' then .error .nullCharacter
  else match files.lookup path with
    | some (.ok data) => .ok data
    | some (.error code) => .error (.system code (some path))
    | none => .error (.system 2 (some path))

/-- What comes of a trouble with opening an archive: a file that is no archive and a refusal of the
system are errors of the archive. -/
def openTrouble (path : Text) (why : Trouble) : Failure table :=
  if why.kind = .badArchive then .archive ⟨.notAnArchive path why, some path, none⟩
  else if why.kind.isSystem then .archive ⟨.unopened path why, some path, none⟩
  else .trouble why

/-- Opens the archive at a path. -/
def openArchive (tools : Tools) (files : Files) (path : Text) : Except (Failure table) Archive :=
  match readFile files path with
  | .error why => .error (openTrouble path why)
  | .ok data =>
    match Archive.ofFile tools path data with
    | .error e => .error (openTrouble path e.trouble)
    | .ok a => .ok a

/-- Opens the archives among some files. -/
def opener (tools : Tools) (files : Files) : Opener table := fun path =>
  (openArchive tools files path).map Archive.handle

end EntryRef.Zip
