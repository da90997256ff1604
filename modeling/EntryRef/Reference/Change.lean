import EntryRef.Path.FileUri
import EntryRef.Reference.Basic

/-!
# Changed references

References do not change; the functions here give the reference that differs in one part: the
archive, the extension of the file, a flag, or what a set of named parts says.
-/

namespace EntryRef

open Text

/-- Why a reference is not changed. -/
inductive Refusal
  /-- The result would not be a reference. -/
  | malformed (why : Malformed)
  /-- A flag cannot be set or written. -/
  | flag (why : FlagFault)
  /-- A reference, which is written as `shown`, has no such parts. -/
  | unknownParts (names : List Text) (shown : Text)
  /-- A part cannot be set in place. -/
  | fixed (name : Text)
  /-- A part cannot be removed. -/
  | permanent (name : Text)
deriving DecidableEq

/-- The words for a refusal. -/
def Refusal.message : Refusal → Text
  | .malformed why => why.message
  | .flag why => why.message
  | .unknownParts names shown =>
    "Can't set attribute(s) " ++ quotedList names ++ " on '" ++ shown ++ "' "
  | .fixed name => "KlsUrl is immutable; can't set '" ++ name ++ "'"
  | .permanent name => "KlsUrl is immutable; can't delete '" ++ name ++ "'"

namespace Reference

variable {table : FlagTable}

/-- The reference with another locator. -/
def withBase (u : Reference table) (base : Text) : Except Malformed (Reference table) :=
  ofBase base u.flags

/-- The inner path behind its exclamation mark, or nothing if there is none. -/
def behindArchive (u : Reference table) : Text := (u.inner?.map ('!' :: ·)).getD []

/-- The same entry in the archive at another path, which is seen from the directory `cwd`. A path
that has no file URI is refused. -/
def withArchiveAt (cwd : Path.Raw) (u : Reference table) (p : Path.Raw) :
    Except Malformed (Reference table) :=
  match p.fileUri cwd with
  | .ok uri => u.withBase (uri ++ u.behindArchive)
  | .error why => .error (.unencodable why)

/-- The same entry in the archive at another path in text, which is never refused. -/
def withArchivePath (cwd : Path.Posix) (u : Reference table) (p : Path.Posix) :
    Reference table where
  base := p.fileUri cwd ++
    match u.inner? with
    | some inner => '!' :: inner
    | none => []
  flags := u.flags
  no_query := by
    intro h
    rcases List.mem_append.1 h with h | h
    · exact p.question_not_mem_fileUri cwd h
    · split at h
      · next hi =>
        rcases List.mem_cons.1 h with h | h
        · revert h; decide
        · exact u.no_query (Locator.inner?_subset hi h)
      · simp at h

/-- The characters that are not escaped in the name of an entry, besides the usual ones. -/
def plainInEntry : Text := ['/', '$']

/-- The entry of the given name in the same archive. -/
def withEntry (u : Reference table) (name : Text) : Reference table where
  base := u.archive ++ ('!' :: '/' :: Percent.encode plainInEntry name)
  flags := u.flags
  no_query := by
    intro h
    rcases List.mem_append.1 h with h | h
    · exact u.no_query (before_subset '!' u.base h)
    · simp only [List.mem_cons] at h
      rcases h with h | h | h
      · revert h; decide
      · revert h; decide
      · rcases Percent.mem_encode h with h | h | h <;> revert h <;> decide

/-- The name of a file with what stands behind its first dot replaced. -/
def renamed (name ext : Text) : Text := before '.' name ++ '.' :: ext.dropWhile (· == '.')

/-- The file with another extension. -/
def withExtension (u : Reference table) (ext : Text) : Except Malformed (Reference table) :=
  u.withBase (throughLast '/' u.base ++ renamed u.fileName ext)

/-- The reference with a flag set to a given value. -/
def withFlag (u : Reference table) (name : Text) (v : Given) :
    Except FlagFault (Reference table) :=
  (u.flags.set name v).map fun q => { u with flags := q }

/-- A reference with a flag set has the flags with that one set. -/
theorem withFlag_eq_ok_iff {u x : Reference table} {name : Text} {v : Given} :
    u.withFlag name v = .ok x ↔ ∃ q, u.flags.set name v = .ok q ∧ x = { u with flags := q } := by
  constructor
  · intro h
    rw [withFlag] at h
    cases hset : u.flags.set name v with
    | error why =>
      rw [hset] at h
      cases h
    | ok q =>
      rw [hset] at h
      exact ⟨q, rfl, (Except.ok.inj h).symm⟩
  · rintro ⟨q, hq, rfl⟩
    rw [withFlag, hq]
    rfl

/-- The reference with the flag for its source set. -/
def withSource (u : Reference table) (v : Given) : Except FlagFault (Reference table) :=
  u.withFlag Flag.source.name v

/-- The reference with no flag set. -/
def withoutFlags (u : Reference table) : Reference table := { u with flags := .none table }

/-- The parts of a reference that are to be replaced. -/
structure Parts (table : FlagTable) where
  /-- The locator, which may be given as nothing. -/
  base : Option (Option Text)
  /-- The flags, where nothing means that none is set. -/
  flags : Option (Option (Flags table))
  /-- Names that a reference has no parts for. -/
  others : List Text

/-- The reference with some parts replaced. The refusal of unknown parts quotes the reference. -/
def replace (u : Reference table) (parts : Parts table) : Except Refusal (Reference table) :=
  if parts.others.isEmpty then
    (make table none (parts.base.getD (some u.base)) (parts.flags.getD (some u.flags))).mapError
      Refusal.malformed
  else
    match u.text with
    | .ok s => .error (.unknownParts (parts.others.mergeSort inOrder) s)
    | .error why => .error (.flag why)

end Reference

end EntryRef
