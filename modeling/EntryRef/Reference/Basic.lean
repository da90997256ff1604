import EntryRef.Flag.Query
import EntryRef.Locator
import EntryRef.Path.Posix

/-!
# References

A reference names a file, or an entry in an archive, by a locator, and carries flags. It is written
as `kls:`, the locator and the query of its flags. The locator never has a question mark, so that
the query starts at the first one.

`Reference.parse` reads the written form and `Reference.text` writes it, unless a flag has a number
that is too long to be written. `Reference.toText` is the same form with numbers of any length, so
that it can be given without a reason why not; the flags of `FlagTable.standard` have no numbers.
-/

namespace EntryRef

open Text

/-- The scheme of references. -/
def scheme : Text := "kls"

/-- A reference to a file or to an entry in an archive. -/
@[ext]
structure Reference (table : FlagTable) where
  /-- The locator. -/
  base : Text
  /-- The flags. -/
  flags : Flags table
  /-- The locator ends where a query starts. -/
  no_query : '?' ∉ base
deriving DecidableEq

/-- Why there is no reference. -/
inductive Malformed
  /-- The identifier has a fault. -/
  | fault (identifier : Text) (why : Identifier.Fault)
  /-- The identifier has another scheme or none. -/
  | otherScheme (identifier : Text)
  /-- Neither an identifier nor a locator is given. -/
  | nothingGiven
  /-- The locator has a question mark. -/
  | queryInBase (base : Text)
  /-- A path has no file URI. -/
  | unencodable (why : Glyph.Unencodable)
deriving DecidableEq

/-- The words for the reason. -/
def Malformed.message : Malformed → Text
  | .fault s why => "Malformed identifier '" ++ s ++ "': " ++ why.message
  | .otherScheme s => "Expected a '" ++ scheme ++ ":' identifier, got '" ++ s ++ "'"
  | .nothingGiven => "Must specify either a url or a base_locator"
  | .queryInBase base => "Base locator can't have a query: '" ++ base ++ "'"
  | .unencodable why => why.message

namespace Reference

variable {table : FlagTable}

/-! ### Reading and writing -/

/-- The reference that is written behind the scheme, up to a fragment. -/
def ofSpecific (table : FlagTable) (specific : Text) : Reference table :=
  let body := before '#' specific
  ⟨before '?' body, .ofQuery table ((after? '?' body).getD []), not_mem_before '?' body⟩

/-- Reads a reference. -/
def parse (table : FlagTable) (s : Text) : Except Malformed (Reference table) :=
  match Identifier.fault? s with
  | some why => .error (.fault s why)
  | none =>
    match Identifier.splitScheme s with
    | (some found, specific) =>
      if found = scheme then .ok (ofSpecific table specific) else .error (.otherScheme s)
    | (none, _) => .error (.otherScheme s)

/-- The reference with the given locator and flags. -/
def ofBase (base : Text) (flags : Flags table) : Except Malformed (Reference table) :=
  if h : '?' ∈ base then .error (.queryInBase base) else .ok ⟨base, flags, h⟩

/-- The reference with a given locator, or else the one that a given identifier is read as; given
flags take the place of those in the identifier. -/
def make (table : FlagTable) (identifier base : Option Text) (flags : Option (Flags table)) :
    Except Malformed (Reference table) :=
  match base, identifier with
  | some base, _ => ofBase base (flags.getD (.none table))
  | none, some s => (parse table s).map fun u => { u with flags := flags.getD u.flags }
  | none, none => .error .nothingGiven

/-- The written form of a reference, with numbers of any length. -/
def toText (u : Reference table) : Text := scheme ++ ':' :: u.base ++ u.flags.toQuery

/-- Writes a reference, unless a flag has a value that is not written. -/
def text (u : Reference table) : Except FlagFault Text :=
  match u.flags.unwritable? with
  | some why => .error why
  | none => .ok u.toText

/-- How a reference is shown. -/
def shown (u : Reference table) : Except FlagFault Text :=
  u.text.map fun s => "<KlsUrl " ++ s ++ ">"

/-- Do two references name the same with flags that stand for the same? -/
def same (u v : Reference table) : Bool := u.base == v.base && u.flags.same v.flags

/-! ### Parts -/

/-- The identifier of the archive. -/
def archive (u : Reference table) : Text := Locator.archive u.base

/-- The path of the archive, or of the file where no entry is named. -/
def archivePath (u : Reference table) : Except Authority.Fault Text := Locator.archivePath u.base

/-- The path of the archive in its shortest form. -/
def archiveFilePath (u : Reference table) : Except Authority.Fault Text :=
  u.archivePath.map fun p => (Path.Posix.ofText p).toText

/-- The path of the entry inside the archive. -/
def inner? (u : Reference table) : Option Text := Locator.inner? u.base

/-- The name of the entry. -/
def entryName? (u : Reference table) : Option Text := Locator.entryName? u.base

/-- The name of the file. -/
def fileName (u : Reference table) : Text := Locator.fileName u.base

/-- The extension of the file. -/
def extension? (u : Reference table) : Option Text := Locator.extension? u.fileName

/-- Is the file a compiled class? -/
def isCompiled (u : Reference table) : Bool := u.extension? == some "class".toList

/-- The value of a flag, or its default where it is not set. -/
def flag (u : Reference table) (name : Text) : Except FlagFault FlagValue := u.flags.get name

/-- Is the source of the file wanted? -/
def source (u : Reference table) : Except FlagFault FlagValue := u.flag Flag.source.name

end Reference

end EntryRef
