import EntryRef.Archive.Handle

/-!
# Archives in memory

An archive in memory is a list of entries with their data. Entries may be made to fail, when they
are opened or while they are read, and so may the opening of an archive.
-/

namespace EntryRef.Memory

open Text

variable {table : FlagTable}

/-- An entry of an archive in memory. -/
structure Item (table : FlagTable) where
  name : Text
  data : Bytes
  /-- The failure to open the entry. -/
  openFailure : Option (Failure table)
  /-- The failure to read the entry. -/
  readFailure : Option (Failure table)
  /-- The number of bytes that are read before that failure. -/
  failAfter : Nat

/-- What copying the entry does. -/
def Item.stream (item : Item table) : Except (Failure table) (Int → Copied (Failure table)) :=
  match item.openFailure, item.readFailure with
  | some why, _ => .error why
  | none, some why => .ok fun size => (Source.broken why).copy size (item.data.take item.failAfter)
  | none, none => .ok fun size => (Source.memory (Failure table)).copy size item.data

/-- The entry as archives give it. -/
def Item.toEntry (item : Item table) : Entry table where
  name := item.name
  readAll :=
    match item.readFailure with
    | some why => .error why
    | none => .ok item.data
  stream := item.stream

/-- The handle of an archive in memory, which looks entries up by their exact names. -/
def handle (items : List (Item table)) : Handle table where
  entry? name := (items.find? fun i => i.name = name).map Item.toEntry
  entries := .ok (items.map Item.toEntry)

/-- The trouble with a path that no archive in memory has. -/
def noArchive : Trouble := ⟨.missing, "No such archive"⟩

/-- Opens archives in memory, of which some cannot be opened. -/
def opener (archives : List (Text × Except (Failure table) (List (Item table)))) : Opener table :=
  fun path =>
  match archives.find? fun a => a.1 = path with
  | some (_, contents) => contents.map handle
  | none => .error (.trouble noArchive)

end EntryRef.Memory
