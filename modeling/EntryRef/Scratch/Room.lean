import EntryRef.Scratch.Disk

/-!
# Labelled scratch directories

A `Room` is a disk whose objects are known by labels, with the default name for new directories, the
random parts of their names, and the tokens for their files. An object that loses its label to a new
one is closed, since nothing refers to it any more.
-/

namespace EntryRef.Scratch

open Text

/-- A disk with labels for its objects. -/
structure Room where
  /-- What opening depends on. -/
  surroundings : Surroundings
  /-- The name for directories that are opened without one. -/
  defaultName : Option Text
  /-- The disk with the objects. -/
  disk : Disk
  /-- The indices of the objects that have labels. -/
  labels : List (Text × Nat)
  /-- The random parts that have not been used. -/
  fresh : List Text
  /-- The tokens that have not been used. -/
  tokens : List Text

namespace Room

/-- The directory of the object with a label. -/
def get? (room : Room) (label : Text) : Option Directory :=
  (room.labels.lookup label).bind room.disk.directory?

/-- Closes the object with a label, if there is one. -/
def close (room : Room) (label : Text) : Room :=
  match room.labels.lookup label with
  | none => room
  | some i => { room with disk := room.disk.close i }

/-- Makes an object and gives it a label. The one that has had the label is closed then. -/
def openAt (room : Room) (label : Text) (r : Request) : Except OpenFault Unit × Room :=
  let index := room.disk.owners.length
  let (result, disk) :=
    room.disk.openAt room.surroundings (room.fresh.headD []) room.defaultName r
  let room := { room with disk := disk, fresh := room.fresh.tail }
  match result with
  | .error why => (.error why, room)
  | .ok () =>
    let room := room.close label
    (.ok (), { room with
      labels := (label, index) :: room.labels.filter fun entry => entry.1 != label })

/-- Makes a file in the directory of the object with a label, if there is one. -/
def create (room : Room) (label start stop : Text) :
    Option (Except Fault Directory.Created) × Room :=
  match room.labels.lookup label with
  | none => (none, room)
  | some i =>
    let (made, disk, tokens) := room.disk.create i start stop room.tokens
    (made, { room with disk := disk, tokens := tokens })

end Room

end EntryRef.Scratch
