import EntryRef.Path.Posix
import EntryRef.Text.Utf8
import EntryRef.Trouble

/-!
# Scratch directories

A scratch directory holds files that are named by a beginning, a token and an end.
`Directory.create` makes an empty file under the first token whose name is not taken. Names are
paths below the directory: `..` goes up, and a path that leaves the directory, names a directory
that is not there, or is too long is refused.

Closing a directory removes it with its files, unless it is kept.

The directory is one of the package `fs`. What is proved about it rests on the following of that
package. A path is resolved before the system is asked, segment by segment and without a look at
what is there (`resolve?`), while the path on the system that is told of a file keeps its segments
as they are given (`systemPath`). Null characters, and more than `maxPath` characters, are refused
before the system is asked, in this order (`locate`). A file is made if nothing is found at its
path. Of the answers of the system, that a name is too long is told as such, and that a path goes on
behind a file is told like that it leads nowhere. After closing, everything but closing is refused.
-/

namespace EntryRef.Scratch

open Text

/-- A file of a scratch directory. -/
structure File where
  name : Text
  data : Bytes
deriving DecidableEq

/-- A scratch directory. -/
structure Directory where
  /-- The path of the directory. -/
  path : Text
  /-- Is the directory removed when it is closed? -/
  autoClean : Bool
  /-- Has it been closed? -/
  closed : Bool
  /-- The files, or nothing once the directory has been removed. -/
  files : Option (List File)
deriving DecidableEq

/-- The longest name of a file, in bytes. -/
def maxName : Nat := 255

/-- The longest path, in characters. A path in bytes has to be shorter than that. -/
def maxPath : Nat := 4096

/-- Why a scratch directory does not do something. -/
inductive Fault
  /-- The directory is closed. -/
  | closed
  /-- A path holds a null character. -/
  | badCharacters (path : Text)
  /-- A path has too many characters. -/
  | unmappable (path : Text)
  /-- A path goes up beyond the directory. -/
  | leaves (path : Text)
  /-- A path, or a segment of it, is too long for the system. -/
  | tooLong (path : Text)
  /-- What stands before the last segment of a path is no directory. -/
  | missing (path : Text)
  /-- A path leads to the directory itself, which is not there. -/
  | notFile (path : Text)
  /-- No token is left. -/
  | noToken
deriving DecidableEq

/-- The words for a fault. -/
def Fault.message : Fault → Text
  | .closed => "attempt to use closed filesystem"
  | .badCharacters p => "path '" ++ p ++ "' contains invalid characters"
  | .unmappable _ => "path too long (max " ++ ofNat maxPath ++ " characters in sys path)"
  | .leaves p => "path '" ++ p ++ "' contains back-references outside of filesystem"
  | .tooLong p => "path '" ++ p ++ "' is invalid"
  | .missing p => "resource '" ++ p ++ "' not found"
  | .notFile p => "path '" ++ p ++ "' should be a file"
  | .noToken => []

/-! ### Paths below a directory -/

/-- Does the system refuse a path, or its first segment below the directory, for its length? -/
def isTooLong (path first : Text) : Bool :=
  (Utf8.encode path).length ≥ maxPath || (Utf8.encode first).length > maxName

/-- Goes along a segment from the segments already passed, which are in reverse. -/
def enter (passed : Option (List Text)) (segment : Text) : Option (List Text) :=
  match passed with
  | none => none
  | some up =>
    if segment = ['.', '.'] then
      match up with
      | [] => none
      | _ :: rest => some rest
    else some (segment :: up)

/-- The segments that a path leads along, unless it leaves the directory. -/
def resolve? (path : Text) : Option (List Text) :=
  ((Path.namedSegments '/' path).foldl enter (some [])).map List.reverse

/-- The path of a scratch directory's file on the system. -/
def systemPath (root path : Text) : Text := root ++ '/' :: path.dropWhile (· == '/')

/-- The segments that a path below the directory `root` leads along, unless it is refused as it
is. -/
def locate (root path : Text) : Except Fault (List Text) :=
  if path.contains '\x00' then .error (.badCharacters path)
  else if (systemPath root path).length > maxPath then .error (.unmappable path)
  else match resolve? path with
    | none => .error (.leaves path)
    | some segments => .ok segments

/-- What stands at a path below a directory. -/
inductive Found (α : Type)
  /-- There is something already. -/
  | taken
  /-- There is nothing yet, and a file can be made, as is told. -/
  | free (told : α)
deriving DecidableEq

/-- Looks at a path below a directory that has the given files, and no directories. A path that goes
on behind a name is told as missing, whether there is a file of that name or not. -/
def look (root : Text) (files : List File) (path : Text) : Except Fault (Found Text) :=
  match locate root path with
  | .error fault => .error fault
  | .ok [] => .ok .taken
  | .ok (first :: more) =>
    if isTooLong (root ++ '/' :: joined "/" (first :: more)) first then .error (.tooLong path)
    else if !more.isEmpty then .error (.missing path)
    else if files.any (·.name == first) then .ok .taken
    else .ok (.free first)

/-- Takes tokens until the path with one of them is refused or free, and tells the path, what is
told of it, and the tokens left. -/
def choose {α : Type} (seek : Text → Except Fault (Found α)) (start stop : Text) :
    List Text → Except Fault (Text × α) × List Text
  | [] => (.error .noToken, [])
  | token :: tokens =>
    let path := start ++ token ++ stop
    match seek path with
    | .error fault => (.error fault, tokens)
    | .ok .taken => choose seek start stop tokens
    | .ok (.free told) => (.ok (path, told), tokens)

namespace Directory

/-- What comes of making a file. -/
structure Created where
  /-- The name of the new file. -/
  name : Text
  /-- The path that leads to it. -/
  path : Path.Posix
deriving DecidableEq

/-- Makes an empty file whose name has the given start and end around one of the tokens, and tells
the tokens that are left. There are no directories in the directory. -/
def create (d : Directory) (start stop : Text) (tokens : List Text) :
    Except Fault Created × Directory × List Text :=
  match d.closed, d.files with
  | false, some files =>
    match choose (look d.path files) start stop tokens with
    | (.ok (path, name), rest) =>
      (.ok ⟨name, .ofText (systemPath d.path path)⟩,
        { d with files := some (files ++ [⟨name, []⟩]) }, rest)
    | (.error fault, rest) => (.error fault, d, rest)
  | _, _ => (.error .closed, d, tokens.tail)

/-- Puts data into the files of a name. -/
def write (d : Directory) (name : Text) (data : Bytes) : Directory :=
  { d with
    files := d.files.map fun fs => fs.map fun f => if f.name = name then ⟨name, data⟩ else f }

/-- The names of the files, in order. -/
def names (d : Directory) : Except Fault (List Text) :=
  match d.closed, d.files with
  | false, some files => .ok ((files.map (·.name)).mergeSort inOrder)
  | _, _ => .error .closed

/-- The files in the order of their names. -/
def sorted (d : Directory) : Option (List File) :=
  d.files.map fun fs => fs.mergeSort fun a b => inOrder a.name b.name

/-- Closes the directory. -/
def close (d : Directory) : Directory :=
  { d with closed := true, files := if d.autoClean && !d.closed then none else d.files }

/-- How the directory is shown. -/
def shown (d : Directory) : Text := "<TemporaryDirectory " ++ d.path ++ "/>"

/-- The size of what stands at a path below the directory. A segment that goes up needs a directory
before it, and there are only files. -/
def size (d : Directory) (p : Path.Posix) : Except Trouble Nat :=
  let files := d.files.getD []
  let below := p.segments.drop (Path.Posix.ofText d.path).segments.length
  match below with
  | [] => .ok 0
  | first :: more =>
    if isTooLong p.toText first then .error (.system 36 (some p.toText))
    else match files.find? fun f => f.name = first with
      | none => .error (.system 2 (some p.toText))
      | some f => if more.isEmpty then .ok f.data.length else .error (.system 20 (some p.toText))

end Directory

end EntryRef.Scratch
