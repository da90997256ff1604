import EntryRef.Archive.Error
import EntryRef.Copy

/-!
# Open archives

An `Opener` opens the archive at a path; what it gives is a `Handle`, which looks up and lists
entries. `withArchive` opens the archive of a reference, lets something be done with the handle, and
closes it, whatever comes of it.

What happens to an archive is an `Event`. Operations answer with a `Traced` value, which tells the
events in order.
-/

namespace EntryRef

open Text

/-- An entry of an archive. -/
structure Entry (table : FlagTable) where
  /-- The name that the archive stores. -/
  name : Text
  /-- All data of the entry, or the failure to read them. -/
  readAll : Except (Failure table) Bytes
  /-- What copying the entry's data does at a size of reads, or the failure to open them. -/
  stream : Except (Failure table) (Int → Copied (Failure table))

/-- An open archive. -/
structure Handle (table : FlagTable) where
  /-- The entry of a name. -/
  entry? : Text → Option (Entry table)
  /-- The entries that are files, in the order of the archive. -/
  entries : Except (Failure table) (List (Entry table))

/-- Opens the archive at a path. -/
abbrev Opener (table : FlagTable) := Text → Except (Failure table) (Handle table)

/-! ### Events -/

/-- What happens in an operation on an archive. -/
inductive Event
  /-- The archive at a path is about to be opened. -/
  | opening (path : Text)
  /-- It is open. -/
  | opened (path : Text)
  /-- An entry is looked up. -/
  | lookup (name : Text)
  /-- The entries are listed. -/
  | listing
  /-- An entry has been copied to a file. -/
  | extracted (reference target : Text)
  /-- The archive is about to be closed. -/
  | closing
  /-- It is closed. -/
  | closed (path : Text)
deriving DecidableEq

/-- A value and the events on the way to it. -/
structure Traced (α : Type) where
  value : α
  events : List Event
deriving DecidableEq

namespace Traced

instance : Monad Traced where
  pure a := ⟨a, []⟩
  bind x f := ⟨(f x.value).value, x.events ++ (f x.value).events⟩

/-- One event. -/
def note (e : Event) : Traced Unit := ⟨(), [e]⟩

end Traced

variable {table : FlagTable} {β : Type}

namespace Handle

/-- Looks up an entry. -/
def lookup (h : Handle table) (name : Text) : Traced (Option (Entry table)) :=
  ⟨h.entry? name, [.lookup name]⟩

/-- Lists the entries. -/
def list (h : Handle table) : Traced (Except (Failure table) (List (Entry table))) :=
  ⟨h.entries, [.listing]⟩

end Handle

/-! ### Opening for a while -/

/-- What comes of a failure to open the archive at a path for a reference: an error of the archive
is told the reference, unless it has one, and a refusal of the system or a file that is no archive
becomes such an error. -/
def openFailure (u : Reference table) (path : Text) : Failure table → Failure table
  | .archive e => .archive { e with reference := e.reference.or (some u) }
  | .trouble why =>
    if why.kind.isSystem || why.kind = .badArchive then
      .archive ⟨.unopenedFor path u.toText why, some path, some u⟩
    else .trouble why
  | e => e

/-- Opens the archive of a reference, does something with its path and the handle, and closes it. -/
def withArchive (opener : Opener table) (u : Reference table) (fail : Failure table → β)
    (body : Text → Handle table → Traced β) : Traced β :=
  match u.archivePath with
  | .error why => ⟨fail (.authority why), []⟩
  | .ok path =>
    match opener path with
    | .error e => ⟨fail (openFailure u path e), [.opening path]⟩
    | .ok h => do
      Traced.note (.opening path)
      Traced.note (.opened path)
      let value ← body path h
      Traced.note .closing
      Traced.note (.closed path)
      return value

end EntryRef
