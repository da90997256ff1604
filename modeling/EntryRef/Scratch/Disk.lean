import EntryRef.Scratch.Opening

/-!
# Scratch directories on one disk

Several objects own scratch directories on the same disk. An object knows the path of its directory
alone; the files are on the disk, where removing a directory takes everything below it along. A
directory is made in a parent directory, which has been there from the start or has been made and
not removed since, so that the directory of an object may be in that of another. A file may be made
in any directory below that of the object.

A `Program` makes objects, uses them and closes them. It may go through a block that closes an
object however the block is left, and it may go on after something has failed.
-/

namespace EntryRef.Scratch

open Text

/-- Where a directory is: the segments that lead to it from the root on. -/
abbrev Place := List Text

/-- The place that a path leads to. -/
def placeOf (path : Text) : Place := (Path.Posix.ofText path).segments

/-- An object that owns a scratch directory. -/
structure Owner where
  /-- The path of the directory. -/
  path : Text
  /-- Is the directory removed when the object is closed? -/
  autoClean : Bool
  /-- Has the object been closed? -/
  closed : Bool

/-- The object that owns a directory. -/
def Directory.owner (d : Directory) : Owner := ⟨d.path, d.autoClean, d.closed⟩

/-- A disk, and the objects that own directories on it. -/
structure Disk where
  /-- The paths of the scratch directories that have been made, the latest one last. -/
  made : List Text
  /-- The files of the directories that stand. -/
  files : Place → Option (List File)
  /-- The objects in the order in which they came. -/
  owners : List Owner

namespace Disk

/-- A disk with some files on it and no objects. -/
def start (files : Place → Option (List File)) : Disk := ⟨[], files, []⟩

/-- Does a directory stand at the place? -/
def stands (p : Place) (disk : Disk) : Bool := (disk.files p).isSome

/-- The directory of the object with an index, as it stands on the disk. -/
def directory? (disk : Disk) (i : Nat) : Option Directory :=
  disk.owners[i]?.map fun o => ⟨o.path, o.autoClean, o.closed, disk.files (placeOf o.path)⟩

/-- The paths of the scratch directories that stand. -/
def standing (disk : Disk) : List Text := disk.made.filter fun path => disk.stands (placeOf path)

/-! ### Directories -/

/-- Puts files into a directory, or takes the directory alone away. -/
def put (p : Place) (fs : Option (List File)) (disk : Disk) : Disk :=
  { disk with files := fun q => if q = p then fs else disk.files q }

/-- Makes an empty directory. -/
def mkdir (path : Text) (disk : Disk) : Disk :=
  put (placeOf path) (some []) { disk with made := disk.made ++ [path] }

/-- Removes a directory and all that is below it. -/
def remove (p : Place) (disk : Disk) : Disk :=
  { disk with files := fun q => if p.isPrefixOf q then none else disk.files q }

/-- Removes the directory of an object that is being closed, unless it is to be kept. -/
def clear (d : Directory) (disk : Disk) : Disk :=
  if d.autoClean && !d.closed then disk.remove (placeOf d.path) else disk

/-! ### Files -/

/-- Goes along the segments of a path from a place, which may not be there. -/
def walk (disk : Disk) (path : Text) : List Text → Place → Except Fault (Found (Place × Text))
  | [], p => if disk.stands p then .ok .taken else .error (.notFile path)
  | name :: rest, p =>
    match disk.files p with
    | none => .error (.missing path)
    | some files =>
      if (Utf8.encode name).length > maxName then .error (.tooLong path)
      else if rest.isEmpty && !disk.stands (p ++ [name]) then
        .ok (if files.any (·.name == name) then .taken else .free (p, name))
      else disk.walk path rest (p ++ [name])

/-- Looks at a path below the directory `root`. If it is free, the directory that the file would be
in and its name are told. -/
def look (disk : Disk) (root path : Text) : Except Fault (Found (Place × Text)) :=
  match locate root path with
  | .error fault => .error fault
  | .ok segments =>
    if !segments.isEmpty && (Utf8.encode (root ++ '/' :: joined "/" segments)).length ≥ maxPath then
      .error (.tooLong path)
    else disk.walk path segments (placeOf root)

/-- Makes an empty file in a directory. -/
def add (p : Place) (name : Text) (disk : Disk) : Disk :=
  disk.put p ((disk.files p).map (· ++ [⟨name, []⟩]))

/-! ### Objects -/

/-- What opening depends on, with a random part for the name, when there are the directories on the
disk besides. -/
def around (s : Surroundings) (fresh : Text) (disk : Disk) : Surroundings :=
  { s with parents := s.parents ++ disk.standing, fresh := fresh }

/-- Makes an empty directory with an object that owns it. -/
def own (d : Directory) (disk : Disk) : Disk :=
  { disk.mkdir d.path with owners := disk.owners ++ [d.owner] }

/-- Makes an object, whose directory has the random part `fresh` in its name. A directory that is
lost right after it has been made stays, unless it is to be removed when it is closed. A path of a
parent directory that goes on behind a file is refused as one that leads nowhere. -/
def openAt (s : Surroundings) (fresh : Text) (default : Option Text) (r : Request) (disk : Disk) :
    Except OpenFault Unit × Disk :=
  match openDirectory (disk.around s fresh) default r with
  | .ok d => (.ok (), disk.own d)
  | .error e =>
    match e.made? with
    | some d => (.error e, (disk.mkdir d.path).clear d)
    | none => (.error e, disk)

/-- Makes a file in the directory of an object or below it, if there is the object, and tells the
tokens that are left. -/
def create (i : Nat) (start stop : Text) (tokens : List Text) (disk : Disk) :
    Option (Except Fault Directory.Created) × Disk × List Text :=
  match disk.owners[i]? with
  | none => (none, disk, tokens)
  | some o =>
    if o.closed then (some (.error .closed), disk, tokens.tail)
    else
      match choose (disk.look o.path) start stop tokens with
      | (.ok (path, p, name), rest) =>
        (some (.ok ⟨name, .ofText (systemPath o.path path)⟩), disk.add p name, rest)
      | (.error fault, rest) => (some (.error fault), disk, rest)

/-- Closes an object, if there is one. -/
def close (i : Nat) (disk : Disk) : Disk :=
  match disk.directory? i with
  | none => disk
  | some d => { disk.clear d with owners := disk.owners.set i d.close.owner }

end Disk

/-! ### Programs -/

/-- What a program does with scratch directories, where `ε` are the exceptions of its own. -/
inductive Program (ε : Type)
  /-- It does nothing. -/
  | nothing
  /-- It does one thing and then another. -/
  | andThen (p q : Program ε)
  /-- It makes an object. -/
  | make (fresh : Text) (default : Option Text) (r : Request)
  /-- It makes a file in the directory of an object or below it. -/
  | create (i : Nat) (start stop : Text) (tokens : List Text)
  /-- It closes an object. -/
  | close (i : Nat)
  /-- It raises an exception. -/
  | raise (e : ε)
  /-- It does something, and closes an object however it leaves that, if there is the object. -/
  | scope (i : Nat) (body : Program ε)
  /-- It tries to do something, and goes on if that fails. -/
  | attempt (body : Program ε)

/-- Why a program does not go on. -/
inductive Stop (ε : Type)
  /-- No object was made. -/
  | notOpened (why : OpenFault)
  /-- No file was made. -/
  | notCreated (why : Fault)
  /-- The program has raised an exception. -/
  | raised (e : ε)
deriving DecidableEq

namespace Program

variable {ε : Type}

/-- Runs a program. -/
def run (s : Surroundings) : Program ε → Disk → Except (Stop ε) Unit × Disk
  | .nothing, disk => (.ok (), disk)
  | .andThen p q, disk =>
    match p.run s disk with
    | (.ok (), disk) => q.run s disk
    | (.error why, disk) => (.error why, disk)
  | .make fresh default r, disk =>
    let (result, disk) := disk.openAt s fresh default r
    (result.mapError .notOpened, disk)
  | .create i start stop tokens, disk =>
    match disk.create i start stop tokens with
    | (some (.error why), disk, _) => (.error (.notCreated why), disk)
    | (_, disk, _) => (.ok (), disk)
  | .close i, disk => (.ok (), disk.close i)
  | .raise e, disk => (.error (.raised e), disk)
  | .scope i body, disk =>
    if (disk.directory? i).isSome then
      let (result, disk) := body.run s disk
      (result, disk.close i)
    else (.ok (), disk)
  | .attempt body, disk => (.ok (), (body.run s disk).2)

/-- The objects that a program uses. -/
def uses : Program ε → List Nat
  | .nothing | .make _ _ _ | .raise _ => []
  | .andThen p q => p.uses ++ q.uses
  | .create i _ _ _ | .close i => [i]
  | .scope i body => i :: body.uses
  | .attempt body => body.uses

end Program

end EntryRef.Scratch
