import EntryRef.Proofs.Archive.Remains
import EntryRef.Proofs.Archive.Translation

/-!
# Whom errors of archives are attributed to

An error of an archive is `ArchiveError.AttributedTo` a reference if it tells the reference and the
path of its archive, and is explained by what it comes from: a problem with opening by a file that
is no archive or a refusal of the system, a problem with reading by a trouble that may come up there
or by bytes that are not text, and the other problems by nothing.

What is below the operations knows paths, but no references. A handle is `Handle.Plain` if its
failures are troubles, so that errors of archives are made by the operations alone. The handles that
are opened from files are plain, and so all errors of archives that come out of the operations on
them are attributed to the reference that was asked for (`attributed_operations`). An error that an
opener tells by itself keeps its reference if it has one.
-/

namespace EntryRef

open Text
open Scratch (Directory)

variable {table : FlagTable} {opener : Opener table} {u : Reference table} {path : Text}

/-- The problem comes from something that suits its kind. -/
structure ArchiveProblem.Explained (p : ArchiveProblem) : Prop where
  absent : p.cause? = none ↔ p.kind = .lookup ∨ p.kind = .naming
  opening : p.kind = .opening →
    ∃ why, p.cause? = some (.trouble why) ∧ (why.kind = .badArchive ∨ why.kind.isSystem)
  reading : p.kind = .reading →
    (∃ why, p.cause? = some (.trouble why) ∧ why.kind.isReading) ∨
      ∃ why, p.cause? = some (.decoding why)

/-- The error tells the reference and the path of its archive, and its problem is explained. -/
structure ArchiveError.AttributedTo (u : Reference table) (e : ArchiveError table) : Prop where
  reference : e.reference = some u
  path : ∃ path, u.archivePath = .ok path ∧ e.path = some path
  explained : e.problem.Explained

/-- A failure that is an error of the archive is attributed to the reference. -/
def Failure.AttributedTo (u : Reference table) (e : Failure table) : Prop :=
  ∀ problem, e = .archive problem → problem.AttributedTo u

namespace ArchiveProblem.Explained

variable {p : ArchiveProblem}

/-- A problem with looking up or naming comes from nothing else. -/
private theorem of_unexplained (hcause : p.cause? = none)
    (hkind : p.kind = .lookup ∨ p.kind = .naming) :
    p.Explained where
  absent := iff_of_true hcause hkind
  opening h := by
    rw [h] at hkind
    exact absurd hkind (by decide)
  reading h := by
    rw [h] at hkind
    exact absurd hkind (by decide)

/-- A problem with opening comes from a file that is no archive, or from the system. -/
private theorem of_opening {why : Trouble} (hkind : p.kind = .opening)
    (hcause : p.cause? = some (.trouble why))
    (hwhy : why.kind = .badArchive ∨ why.kind.isSystem) : p.Explained where
  absent := by
    rw [hkind, hcause]
    exact iff_of_false (Option.some_ne_none _) (by decide)
  opening _ := ⟨why, hcause, hwhy⟩
  reading h := by
    rw [hkind] at h
    cases h

/-- A problem with reading comes from a trouble of reading, or from bytes that are not text. -/
private theorem of_reading (hkind : p.kind = .reading)
    (hcause : (∃ why, p.cause? = some (.trouble why) ∧ why.kind.isReading) ∨
      ∃ why, p.cause? = some (.decoding why)) : p.Explained where
  absent := by
    rw [hkind]
    refine iff_of_false (fun h => ?_) (by decide)
    rw [h] at hcause
    obtain ⟨why, hwhy, -⟩ | ⟨why, hwhy⟩ := hcause
    · cases hwhy
    · cases hwhy
  opening h := by
    rw [hkind] at h
    cases h
  reading _ := hcause

end ArchiveProblem.Explained

namespace Failure.AttributedTo

/-- A failure that is no error of an archive has nothing to be attributed. -/
private theorem of_ne {e : Failure table} (h : ∀ problem, e ≠ .archive problem) :
    e.AttributedTo u :=
  fun problem he => absurd he (h problem)

/-- A trouble is no error of an archive. -/
theorem trouble (u : Reference table) (why : Trouble) :
    (Failure.trouble why : Failure table).AttributedTo u :=
  of_ne (by simp)

/-- An error that is told with the reference and its path is attributed to it. -/
theorem archive {p : ArchiveProblem} (hpath : u.archivePath = .ok path) (hp : p.Explained) :
    (Failure.archive ⟨p, some path, some u⟩).AttributedTo u := by
  rintro problem ⟨⟩
  exact ⟨rfl, ⟨path, hpath, rfl⟩, hp⟩

end Failure.AttributedTo

/-! ### Errors that operations make -/

/-- The troubles of opening that are made errors of the archive are those that explain one. -/
private theorem attributed_openTrouble (hpath : u.archivePath = .ok path) (why : Trouble) :
    (openFailure u path (Zip.openTrouble path why)).AttributedTo u := by
  unfold Zip.openTrouble
  split
  · next h => exact .archive hpath (.of_opening rfl rfl (.inl h))
  split
  · next h => exact .archive hpath (.of_opening rfl rfl (.inr h))
  · next hbad hsystem =>
    rw [openFailure, if_neg (by simp [hbad, hsystem])]
    exact .trouble u why

/-- Looking an entry up tells its own problem alone: the handle is asked for names and nothing else.
-/
private theorem attributed_findEntry (hpath : u.archivePath = .ok path) (h : Handle table) :
    FailsOnly (Failure.AttributedTo u) (findEntry u path h).value := by
  cases hfind : (findEntry u path h).value with
  | error e =>
    obtain ⟨problem, rfl, hkind, hcause⟩ := findEntry_eq_error hfind
    exact .error (.archive hpath (.of_unexplained hcause (.inl hkind)))
  | ok entry => exact .ok _ _

/-- What is done with the answer of a lookup tells whether the failures that a result shows are
attributed. -/
theorem attributed_bind_findEntry {α β : Type} (hpath : u.archivePath = .ok path) (h : Handle table)
    {f : Except (Failure table) (Entry table) → Traced β} (result : β → Except (Failure table) α)
    (herror : ∀ e, result (f (.error e)).value = .error e)
    (hok : ∀ entry, (findEntry u path h).value = .ok entry →
      FailsOnly (Failure.AttributedTo u) (result (f (.ok entry)).value)) :
    FailsOnly (Failure.AttributedTo u) (result (findEntry u path h >>= f).value) := by
  rw [Traced.value_bind]
  cases hfind : (findEntry u path h).value with
  | error e =>
    rw [herror]
    exact .error (attributed_findEntry hpath h e hfind)
  | ok entry => exact hok entry hfind

/-- A trouble with an entry becomes a problem that is explained by it. -/
theorem attributed_readFailure (hpath : u.archivePath = .ok path)
    {problem : Trouble → ArchiveProblem} (hkind : ∀ why, (problem why).kind = .reading)
    (hcause : ∀ why, (problem why).cause? = some (.trouble why)) (why : Trouble) :
    (readFailure u path problem (.trouble why)).AttributedTo u := by
  rw [readFailure]
  split
  · next h =>
    exact .archive hpath (.of_reading (hkind why) (.inl ⟨why, hcause why, h⟩))
  · exact .trouble u why

private theorem attributed_textOf (codecs : Codecs) (hpath : u.archivePath = .ok path)
    (encoding : Text) (data : Bytes) :
    FailsOnly (Failure.AttributedTo u) (textOf codecs u path encoding data) := by
  rw [textOf]
  refine .ite (.error (.trouble u _)) (.ite (.ok _ _) ?_)
  split
  · exact .error (.trouble u _)
  split
  · exact .ok _ _
  · next why _ => exact .error (.archive hpath (.of_reading rfl (.inr ⟨why, rfl⟩)))
  · exact .error (.trouble u _)

/-! ### Plain handles -/

/-- The failure is a trouble, which knows neither the archive nor the reference. -/
def Failure.IsTrouble (e : Failure table) : Prop := ∃ why, e = .trouble why

/-- All failures with the entry are troubles. -/
structure Entry.Plain (entry : Entry table) : Prop where
  readAll : FailsOnly Failure.IsTrouble entry.readAll
  stream : FailsOnly Failure.IsTrouble entry.stream
  copied : ∀ copied, entry.stream = .ok copied → ∀ e, (copied copySize).fault = some e → e.IsTrouble

/-- All failures with the archive, once it is open, are troubles. -/
structure Handle.Plain (h : Handle table) : Prop where
  entry : ∀ name entry, h.entry? name = some entry → entry.Plain
  entries : FailsOnly Failure.IsTrouble h.entries

private theorem Zip.Archive.plain_entry (a : Zip.Archive) (m : Zip.Member) :
    (a.entry m : Entry table).Plain where
  readAll _ he := by
    obtain ⟨fault, rfl⟩ := exists_of_mapError (x := a.readMember m) he
    exact ⟨fault.trouble, rfl⟩
  stream _ he := trouble_of_stream he
  copied _ hstream e he := by
    obtain ⟨why, hwhy, -⟩ := (copies_content hstream).2.2 e he
    exact ⟨why, hwhy⟩

private theorem Zip.Archive.plain_handle (a : Zip.Archive) : (a.handle : Handle table).Plain where
  entry name entry h := by
    obtain ⟨m, -, rfl⟩ := Option.map_eq_some_iff.mp h
    exact a.plain_entry m
  entries := by
    rw [Zip.Archive.handle]
    simp only
    split
    · exact .error ⟨_, rfl⟩
    · exact .ok _ _

private theorem Handle.Plain.of_findEntry {h : Handle table} (hh : h.Plain) {entry : Entry table}
    (hfind : (findEntry u path h).value = .ok entry) : entry.Plain := by
  cases hname : u.entryName? with
  | none =>
    simp only [findEntry, hname, Traced.value_pure] at hfind
    cases hfind
  | some name => exact hh.entry name entry ((findEntry_eq_ok_iff hname).mp hfind)

/-! ### Operations -/

/-- Extracting an entry tells problems with its name and with reading it, besides what the directory
has to tell. -/
private theorem attributed_extractEntry (hpath : u.archivePath = .ok path) {entry : Entry table}
    (hentry : entry.Plain) (d : Directory) (tokens : List Text) :
    FailsOnly (Failure.AttributedTo u) (extractEntry u path entry d tokens).value.result := by
  have hreading : ∀ target why, Failure.IsTrouble why →
      (readFailure u path (.notExtracted entry.name path target) why).AttributedTo u := by
    rintro target _ ⟨why, rfl⟩
    exact attributed_readFailure hpath (fun _ => rfl) (fun _ => rfl) why
  by_cases hdot : '.' ∉ afterLast '/' entry.name
  · rw [value_extractEntry_of_no_dot u path hdot]
    exact .error (.archive hpath (.of_unexplained rfl (.inr rfl)))
  rw [value_extractEntry u path (not_not.mp hdot)]
  unfold fillFile
  split
  · exact .error (.of_ne (by simp))
  split
  · next why hstream => exact .error (hreading _ why (hentry.stream why hstream))
  · next why _ hsize => exact .error (hreading _ why (exists_of_mapError hsize))
  · next copied _ hstream _ =>
    split
    · next why hfault => exact .error (hreading _ why (hentry.copied copied hstream why hfault))
    · exact .ok _ _

/-- What opens archives gives plain handles, and its failures are attributed once the reference is
known. -/
structure Opener.PlainFor (opener : Opener table) (u : Reference table) : Prop where
  handle : ∀ path h, opener path = .ok h → h.Plain
  failure : ∀ path e, u.archivePath = .ok path → opener path = .error e →
    (openFailure u path e).AttributedTo u

private theorem Zip.plainFor_opener (tools : Zip.Tools) (files : Zip.Files) (u : Reference table) :
    Opener.PlainFor (Zip.opener tools files) u where
  handle path h hopen := by
    obtain ⟨a, -, rfl⟩ := Zip.opener_eq_ok_iff.mp hopen
    exact a.plain_handle
  failure path e hpath hopen := by
    obtain ⟨why, rfl⟩ := Zip.exists_openTrouble hopen
    exact attributed_openTrouble hpath why

namespace Opener.PlainFor

/-- What is done with plain handles tells whether the failures that a result shows are
attributed. -/
theorem attributed_withArchive {α β : Type} (hopener : opener.PlainFor u)
    {fail : Failure table → β} {body : Text → Handle table → Traced β}
    (result : β → Except (Failure table) α) (hfail : ∀ e, result (fail e) = .error e)
    (hbody : ∀ path h, u.archivePath = .ok path → h.Plain →
      FailsOnly (Failure.AttributedTo u) (result (body path h).value)) :
    FailsOnly (Failure.AttributedTo u) (result (withArchive opener u fail body).value) := by
  refine withArchive_cases (motive := fun x => FailsOnly (Failure.AttributedTo u) (result x))
    ?_ ?_ ?_
  · intro why hpath
    rw [hfail]
    exact .error (.of_ne (by simp))
  · intro path e hpath hopen
    rw [hfail]
    exact .error (hopener.failure path e hpath hopen)
  · intro path h hpath hopen
    exact hbody path h hpath (hopener.handle path h hopen)

private theorem attributed_readText (hopener : opener.PlainFor u) (codecs : Codecs)
    (encoding : Option Text) :
    FailsOnly (Failure.AttributedTo u) (readText codecs opener u encoding).value := by
  rw [value_readText, readData]
  let decoded : Except (Failure table) (Text × Bytes) → Except (Failure table) Text :=
    (Except.bind · fun read => textOf codecs u read.1 (encodingFor encoding) read.2)
  refine hopener.attributed_withArchive decoded (fun _ => rfl) ?_
  intro path h hpath hplain
  refine attributed_bind_findEntry hpath h decoded (fun _ => rfl) ?_
  intro entry hfind
  cases hdata : entry.readAll with
  | error why =>
    obtain ⟨why, rfl⟩ := (hplain.of_findEntry hfind).readAll why hdata
    simp only [hdata]
    exact .error (attributed_readFailure hpath (fun _ => rfl) (fun _ => rfl) why)
  | ok data =>
    simp only [hdata]
    exact attributed_textOf codecs hpath (encodingFor encoding) data

private theorem attributed_extract (hopener : opener.PlainFor u) (d : Directory)
    (tokens : List Text) :
    FailsOnly (Failure.AttributedTo u) (extract opener u d tokens).value.result := by
  rw [extract]
  refine hopener.attributed_withArchive Extraction.result (fun _ => rfl) ?_
  intro path h hpath hplain
  refine attributed_bind_findEntry hpath h Extraction.result (fun _ => rfl) ?_
  intro entry hfind
  exact attributed_extractEntry hpath (hplain.of_findEntry hfind) d tokens

/-- Listing tells problems with opening alone. -/
private theorem attributed_listEntries (hopener : opener.PlainFor u) :
    FailsOnly (Failure.AttributedTo u) (listEntries opener u).value := by
  rw [listEntries]
  refine hopener.attributed_withArchive id (fun _ => rfl) ?_
  intro path h hpath hplain
  simp only [Traced.value_bind, Handle.list]
  cases hentries : h.entries with
  | error e =>
    obtain ⟨why, rfl⟩ := hplain.entries e hentries
    exact .error (.trouble u why)
  | ok entries => exact .ok _ _

end Opener.PlainFor

/-- **Attribution.** Every error of an archive that comes out of reading, extracting or listing
among files, whatever is in them, is attributed to the reference that was asked for. What an opener
tells by itself keeps its reference, and is told the one that was asked for if it has none. -/
theorem attributed_operations (u : Reference table) :
    (∀ (tools : Zip.Tools) (files : Zip.Files),
      (∀ codecs encoding,
        FailsOnly (Failure.AttributedTo u)
          (readText codecs (Zip.opener tools files) u encoding).value) ∧
      (∀ d tokens,
        FailsOnly (Failure.AttributedTo u)
          (extract (Zip.opener tools files) u d tokens).value.result) ∧
      FailsOnly (Failure.AttributedTo u) (listEntries (Zip.opener tools files) u).value) ∧
    ∀ (opener : Opener table) (path : Text) (e : ArchiveError table),
      u.archivePath = .ok path → opener path = .error (.archive e) →
      let told : Failure table := .archive { e with reference := some (e.reference.getD u) }
      (∀ codecs encoding, (readText codecs opener u encoding).value = .error told) ∧
      (∀ d tokens, (extract opener u d tokens).value = ⟨.error told, d, tokens⟩) ∧
      (listEntries opener u).value = .error told := by
  constructor
  · intro tools files
    have hopener : Opener.PlainFor (Zip.opener tools files) u := Zip.plainFor_opener tools files u
    exact ⟨hopener.attributed_readText, hopener.attributed_extract, hopener.attributed_listEntries⟩
  · intro opener path e hpath hopen
    have htold : openFailure u path (.archive e) =
        .archive { e with reference := some (e.reference.getD u) } := by
      rw [openFailure]
      cases e.reference <;> rfl
    refine ⟨fun codecs encoding => ?_, fun d tokens => ?_, ?_⟩
    · rw [value_readText, readData, value_withArchive_of_no_archive hpath hopen, htold]
      rfl
    · rw [extract, value_withArchive_of_no_archive hpath hopen, htold]
    · rw [listEntries, value_withArchive_of_no_archive hpath hopen, htold]

/-- An opener that tells of a problem with reading, without a reference. -/
def Opener.telling : Opener .standard := fun path =>
  .error (.archive ⟨.told .reading [], some path, none⟩)

/-- A missing file is a problem with opening, which comes from the refusal of the system, and an
error that an opener tells without a reference gets the one that was asked for. -/
theorem attributed_operations_missing : ∃ (u : Reference .standard) (e : ArchiveError .standard),
    Reference.parse .standard "kls:file:///l.jar!/a.txt".toList = .ok u ∧
      (readText Codecs.builtIn (Zip.opener .none []) u none).value = .error (.archive e) ∧
      e.problem.kind = .opening ∧
      e.AttributedTo u ∧
      (listEntries Opener.telling u).value =
        .error (.archive ⟨.told .reading [], some "/l.jar".toList, some u⟩) := by
  have hu : Reference.parse .standard "kls:file:///l.jar!/a.txt".toList =
      .ok (.ofSpecific .standard "file:///l.jar!/a.txt".toList) := rfl
  have hpath : (Reference.ofSpecific .standard "file:///l.jar!/a.txt".toList).archivePath =
      .ok "/l.jar".toList := rfl
  obtain ⟨hfiles, htold⟩ :=
    attributed_operations (Reference.ofSpecific .standard "file:///l.jar!/a.txt".toList)
  obtain ⟨hread, -, -⟩ := hfiles .none []
  have hmissing : (readText Codecs.builtIn (Zip.opener .none [])
      (Reference.ofSpecific .standard "file:///l.jar!/a.txt".toList) none).value =
      .error (.archive ⟨.unopened "/l.jar".toList (.system 2 (some "/l.jar".toList)),
        some "/l.jar".toList, some (.ofSpecific .standard "file:///l.jar!/a.txt".toList)⟩) := rfl
  have hopen : Opener.telling "/l.jar".toList =
      .error (.archive ⟨.told .reading [], some "/l.jar".toList, none⟩) := rfl
  have hattributed := hread Codecs.builtIn none _ hmissing _ rfl
  exact ⟨_, _, hu, hmissing, rfl, hattributed, (htold _ _ _ hpath hopen).2.2⟩

end EntryRef
