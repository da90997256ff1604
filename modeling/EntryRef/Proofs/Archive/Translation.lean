import EntryRef.Proofs.Archive.Listing
import EntryRef.Proofs.Zip.Faults

/-!
# Failures that become errors of archives

Failures below archives are to become errors of archives, which tell the archive and the reference.
`Translated` says that an operation has no other failures. Whether this is so depends on the kinds
that are dealt with, and these differ between opening an archive and reading an entry of it; where
entries are listed, nothing is dealt with.

`translated_iff` has the exact condition for archives in files, however damaged these are. The
faults that are left are names that are not UTF-8, versions that are too new, empty names, headers
at places that cannot be named, and troubles of their own that the libraries of compression methods
and the registered encodings have.
-/

namespace EntryRef

open Text

variable {table : FlagTable} {α β : Type} {u : Reference table} {path : Text}

/-- Every failure is an error of the archive. -/
def Translated (x : Except (Failure table) α) : Prop := FailsOnly (∃ e, · = .archive e) x

private theorem translated_error_iff {e : Failure table} :
    Translated (.error e : Except (Failure table) α) ↔ ∃ problem, e = .archive problem :=
  FailsOnly.error_iff

/-! ### Opening -/

private theorem Trouble.isSystem_systemKind (code : Nat) : (Trouble.systemKind code).isSystem := by
  unfold Trouble.systemKind
  split <;> rfl

/-- A trouble with opening an archive is dealt with if the system refuses, or the file is no
archive. -/
theorem openFailure_openTrouble_iff {why : Trouble} :
    (∃ e, openFailure u path (Zip.openTrouble path why) = .archive e) ↔
      why.kind = .badArchive ∨ why.kind.isSystem := by
  unfold Zip.openTrouble
  split
  · next h => exact iff_of_true ⟨_, rfl⟩ (.inl h)
  split
  · next h => exact iff_of_true ⟨_, rfl⟩ (.inr h)
  · next hbad hsystem =>
    refine iff_of_false ?_ (not_or.mpr ⟨hbad, hsystem⟩)
    rw [openFailure, if_neg (by simp [hbad, hsystem])]
    rintro ⟨e, he⟩
    cases he

variable {tools : Zip.Tools} {files : Zip.Files}
  {body : Text → Handle table → Traced (Except (Failure table) β)}
  {next : β → Except (Failure table) α}

private theorem readFile_of_lookup (hnull : '\x00' ∉ path) {content : Except Nat Bytes}
    (hfile : files.lookup path = some content) :
    Zip.readFile files path = content.mapError fun code => .system code (some path) := by
  rw [Zip.readFile, if_neg (by simpa using hnull), hfile]
  cases content <;> rfl

/-- A file that cannot be read is an error of the archive. -/
theorem translated_of_refused (hpath : u.archivePath = .ok path) (hnull : '\x00' ∉ path)
    {code : Nat} (hfile : files.lookup path = some (.error code)) :
    Translated ((withArchive (Zip.opener tools files) u .error body).value.bind next) := by
  have hopen : Zip.opener tools files path =
      .error (Zip.openTrouble path (.system code (some path)) : Failure table) := by
    rw [Zip.opener, Zip.openArchive, readFile_of_lookup hnull hfile]
    rfl
  rw [value_withArchive_of_no_archive hpath hopen]
  exact .error (openFailure_openTrouble_iff.mpr (.inr (Trouble.isSystem_systemKind code)))

/-- Where a file is read, the faults of its directory tell whether the failure to open it is an
error of the archive. If it is opened, what is done with it, and behind it, tells. -/
theorem translated_withArchive_iff (hpath : u.archivePath = .ok path) (hnull : '\x00' ∉ path)
    {data : Bytes} (hfile : files.lookup path = some (.ok data)) :
    Translated ((withArchive (Zip.opener tools files) u .error body).value.bind next) ↔
      FailsOnly (¬·.EscapesOpening) (Zip.Archive.ofFile tools path data) ∧
        ∀ a, Zip.Archive.ofFile tools path data = .ok a →
          Translated ((body path a.handle).value.bind next) := by
  have hread := readFile_of_lookup hnull hfile
  cases hofFile : Zip.Archive.ofFile tools path data with
  | error f =>
    have hopen : Zip.opener tools files path =
        .error (Zip.openTrouble path f.trouble : Failure table) := by
      simp only [Zip.opener, Zip.openArchive, hread, Except.mapError, hofFile]
      rfl
    have hdirectory : f.OfDirectory := Zip.failsOnly_ofFile tools path data f hofFile
    rw [value_withArchive_of_no_archive hpath hopen, Except.bind, translated_error_iff,
      FailsOnly.error_iff, openFailure_openTrouble_iff]
    refine hdirectory.isOpening_iff.trans (and_iff_left fun a ha => ?_).symm
    cases ha
  | ok a =>
    have hopen : Zip.opener tools files path = .ok (a.handle : Handle table) := by
      simp only [Zip.opener, Zip.openArchive, hread, Except.mapError, hofFile]
      rfl
    rw [value_withArchive hpath hopen, and_iff_right (FailsOnly.ok _ _)]
    exact ⟨fun h b hb => Except.ok.inj hb ▸ h, fun h => h a rfl⟩

/-! ### Listing -/

/-- A list of members is told if no name is empty, and nothing deals with a name that is. -/
theorem translated_entries_iff {a : Zip.Archive} :
    Translated (a.handle : Handle table).entries ↔ ∀ m ∈ a.members, m.name ≠ [] := by
  have hfiles : (∃ ms, a.files = .ok ms) ↔ ∀ m ∈ a.members, m.name ≠ [] := by
    constructor
    · rintro ⟨ms, hms⟩
      exact (Zip.Archive.files_eq_ok_iff.mp hms).1
    · exact fun h => ⟨_, Zip.Archive.files_eq_ok_iff.mpr ⟨h, rfl⟩⟩
  rw [← hfiles]
  simp only [Zip.Archive.handle]
  cases a.files with
  | ok ms => exact iff_of_true (.ok _ _) ⟨ms, rfl⟩
  | error f =>
    refine iff_of_false (fun h => ?_) (by simp)
    obtain ⟨e, he⟩ := h _ rfl
    cases he

/-! ### Reading -/

/-- The encoding has a trouble of its own with the data. -/
def Text.Codec.Breaks (codec : Codec) (data : Bytes) : Prop :=
  data ≠ [] ∧ ∃ why, codec data = .error (.trouble why)

/-- The encodings that are built in have none. -/
theorem Text.Encoding.not_breaks_codec (e : Encoding) (data : Bytes) : ¬e.codec.Breaks data := by
  rintro ⟨-, why, h⟩
  rw [Encoding.codec] at h
  cases hdecode : e.decode data with
  | ok t =>
    rw [hdecode] at h
    cases h
  | error why =>
    rw [hdecode] at h
    cases h

/-- Data in a known encoding are text or not, or the encoding breaks. -/
private theorem translated_textOf_iff {codecs : Codecs} {encoding : Text} {codec : Codec}
    (hnull : '\x00' ∉ encoding) (hencoding : codecs.find encoding = .ok codec) (data : Bytes) :
    Translated (textOf codecs u path encoding data) ↔ ¬codec.Breaks data := by
  rw [textOf, if_neg (by simpa using hnull), hencoding, Codec.Breaks]
  split
  · next hempty => exact iff_of_true (.ok _ _) fun h => h.1 (List.isEmpty_iff.mp hempty)
  next hne =>
  have hne : data ≠ [] := fun h => hne (List.isEmpty_iff.mpr h)
  simp only [hne, ne_eq, not_false_eq_true, true_and]
  cases codec data with
  | ok t =>
    refine iff_of_true (.ok _ _) ?_
    rintro ⟨why, ⟨⟩⟩
  | error fault =>
    cases fault with
    | notText why =>
      refine iff_of_true (.error ⟨_, rfl⟩) ?_
      rintro ⟨why, ⟨⟩⟩
    | trouble why =>
      refine iff_of_false (fun h => ?_) fun h => h ⟨why, rfl⟩
      obtain ⟨e, he⟩ := translated_error_iff.mp h
      cases he

/-- A fault of a member of an open archive is dealt with, unless it is one of four. -/
theorem translated_readFailure_iff {problem : Trouble → ArchiveProblem} {f : Zip.Fault}
    (hf : f ≠ .closed) :
    (∃ e, readFailure u path problem (.trouble f.trouble) = .archive e) ↔ ¬f.EscapesReading := by
  rw [← Zip.Fault.isReading_iff hf, readFailure]
  change (∃ e, (if f.kind.isReading then _ else _) = _) ↔ _
  split
  · next h => exact iff_of_true ⟨_, rfl⟩ h
  · next h =>
    refine iff_of_false ?_ h
    rintro ⟨e, he⟩
    cases he

/-- The data of an entry: an archive that cannot be opened and an entry that is not there are errors
of the archive, and where an entry is found the faults of its member tell, and what is done with its
data. -/
theorem translated_readData_iff {next : Text × Bytes → Except (Failure table) α}
    (hpath : u.archivePath = .ok path) (hnull : '\x00' ∉ path) {data : Bytes}
    (hfile : files.lookup path = some (.ok data)) :
    Translated ((readData (Zip.opener tools files) u).value.bind next) ↔
      FailsOnly (¬·.EscapesOpening) (Zip.Archive.ofFile tools path data) ∧
        ∀ a, Zip.Archive.ofFile tools path data = .ok a → ∀ name, u.entryName? = some name →
          ∀ m, a.member? name = some m → FailsOnly (¬·.EscapesReading) (a.readMember m) ∧
            ∀ bytes, a.readMember m = .ok bytes → Translated (next (path, bytes)) := by
  rw [readData, translated_withArchive_iff hpath hnull hfile]
  refine and_congr_right fun _ => forall₂_congr fun a ha => ?_
  cases hname : u.entryName? with
  | none =>
    simp only [findEntry, hname, Traced.value_bind, Traced.value_pure]
    refine iff_of_true (.error ⟨_, rfl⟩) fun name h => ?_
    cases h
  | some name =>
    simp only [Option.some.injEq, forall_eq']
    cases hmember : a.member? name with
    | none =>
      simp only [findEntry, hname, Traced.value_bind, Handle.lookup, Zip.Archive.handle, hmember,
        Option.map_none, Traced.value_pure]
      refine iff_of_true (.error ⟨_, rfl⟩) fun m h => ?_
      cases h
    | some m =>
      have hread := Zip.failsOnly_readMember (Zip.Archive.closed_of_ofFile ha) m
      simp only [findEntry, hname, Traced.value_bind, Handle.lookup, Zip.Archive.handle, hmember,
        Option.map_some, Traced.value_pure, Zip.Archive.entry, Option.some.injEq, forall_eq']
      cases hdata : a.readMember m with
      | ok bytes =>
        simp only [Except.ok.injEq, forall_eq']
        exact (and_iff_right (.ok _ _)).symm
      | error f =>
        change Translated (.error _) ↔ _
        rw [translated_error_iff, FailsOnly.error_iff]
        refine (translated_readFailure_iff (hread f hdata)).trans
          (and_iff_left fun bytes hbytes => ?_).symm
        cases hbytes

private theorem bind_ok (x : Except (Failure table) α) : x.bind .ok = x := by
  cases x <;> rfl

/-- **Translation.** For a file that exists, listing and reading in a known encoding fail with
nothing but errors of the archive, unless the directory has a name that is not UTF-8 though it
should be or asks for a newer version, or a name is empty where a listing asks for its last
character, or reading finds a member whose header has such a name or stands at a place that cannot
be named, or is encrypted with no name to tell, or for which the library of its compression method
or the encoding fails in a way of its own. -/
theorem translated_iff (tools : Zip.Tools) (hpath : u.archivePath = .ok path)
    (hnull : '\x00' ∉ path) {content : Except Nat Bytes}
    (hfile : files.lookup path = some content) :
    (Translated (listEntries (Zip.opener tools files) u).value ↔ ∀ data, content = .ok data →
      FailsOnly (¬·.EscapesOpening) (Zip.Archive.ofFile tools path data) ∧
        ∀ a, Zip.Archive.ofFile tools path data = .ok a → ∀ m ∈ a.members, m.name ≠ []) ∧
    ∀ (codecs : Codecs) encoding codec, '\x00' ∉ encodingFor encoding →
      codecs.find (encodingFor encoding) = .ok codec →
      (Translated (readText codecs (Zip.opener tools files) u encoding).value ↔
        ∀ data, content = .ok data →
          FailsOnly (¬·.EscapesOpening) (Zip.Archive.ofFile tools path data) ∧
            ∀ a, Zip.Archive.ofFile tools path data = .ok a → ∀ name, u.entryName? = some name →
              ∀ m, a.member? name = some m → FailsOnly (¬·.EscapesReading) (a.readMember m) ∧
                ∀ bytes, a.readMember m = .ok bytes → ¬codec.Breaks bytes) := by
  cases content with
  | error code =>
    have hrefused : ∀ {β γ : Type} {body : Text → Handle table → Traced (Except (Failure table) β)}
        {next : β → Except (Failure table) γ},
        Translated ((withArchive (Zip.opener tools files) u .error body).value.bind next) :=
      translated_of_refused hpath hnull hfile
    have hnone : ∀ {p : Bytes → Prop} data,
        (.error code : Except Nat Bytes) = .ok data → p data := by
      intro p data hdata
      cases hdata
    constructor
    · rw [listEntries, ← bind_ok (withArchive _ _ _ _).value]
      exact iff_of_true hrefused hnone
    · intro codecs encoding codec _ _
      rw [value_readText]
      exact iff_of_true hrefused hnone
  | ok data =>
    simp only [Except.ok.injEq, forall_eq']
    refine ⟨?_, fun codecs encoding codec hsound hencoding => ?_⟩
    · rw [listEntries, ← bind_ok (withArchive _ _ _ _).value,
        translated_withArchive_iff hpath hnull hfile]
      refine and_congr_right fun _ => forall₂_congr fun a _ => ?_
      have hentries : Translated (a.handle : Handle table).entries ↔
          ∀ m ∈ a.members, m.name ≠ [] := translated_entries_iff
      refine Iff.trans ?_ hentries
      simp only [Traced.value_bind, Handle.list]
      cases (a.handle : Handle table).entries with
      | error why => exact translated_error_iff.trans translated_error_iff.symm
      | ok entries => exact iff_of_true (.ok _ _) (.ok _ _)
    · rw [value_readText, translated_readData_iff hpath hnull hfile]
      simp only [translated_textOf_iff hsound hencoding]

/-- One byte of the data is not the one that was checked. -/
theorem translated_iff_damaged : ∃ (files : Zip.Files) (u : Reference .standard),
    Reference.parse .standard "kls:file:///l.jar!/a".toList = .ok u ∧
      files = [("/l.jar".toList, .ok ((Zip.single "a".toList).set 31 0x48))] ∧
      Translated (listEntries (Zip.opener .none files) u).value ∧
      Translated (readText Codecs.builtIn (Zip.opener .none files) u none).value := by
  let data : Bytes := (Zip.single "a".toList).set 31 0x48
  let m : Zip.Member := Zip.singleMember "a".toList
  have hu : Reference.parse .standard "kls:file:///l.jar!/a".toList =
      .ok (.ofSpecific .standard "file:///l.jar!/a".toList) := rfl
  have hpath : (Reference.ofSpecific .standard "file:///l.jar!/a".toList).archivePath =
      .ok "/l.jar".toList := rfl
  have hfile : List.lookup "/l.jar".toList [("/l.jar".toList, (.ok data : Except Nat Bytes))] =
      some (.ok data) := rfl
  have hdirectory : Zip.readDirectory data = .ok [m] := by decide +kernel
  have hofFile : Zip.Archive.ofFile .none "/l.jar".toList data =
      .ok ⟨"/l.jar".toList, data, [m], false, .none⟩ := by
    rw [Zip.Archive.ofFile, hdirectory]
    rfl
  have hread : Zip.Archive.readMember ⟨"/l.jar".toList, data, [m], false, .none⟩ m =
      .error (.check "a".toList) := by
    decide +kernel
  have htranslated := translated_iff .none hpath (by decide) hfile
  simp only [Except.ok.injEq, forall_eq', hofFile] at htranslated
  have hcodec : Codecs.builtIn.find (encodingFor none) = .ok Encoding.utf8.codec :=
    Codecs.builtIn.find_of_ofName rfl
  refine ⟨_, _, hu, rfl, htranslated.1.mpr ⟨.ok _ _, by decide⟩,
    (htranslated.2 Codecs.builtIn none _ (by decide) hcodec).mpr
      ⟨.ok _ _, fun name hname m' hmember => ?_⟩⟩
  obtain rfl := Option.some.inj hname
  obtain rfl := Option.some.inj hmember
  rw [hread]
  exact ⟨.error nofun, nofun⟩

/-- The file of an archive whose only member has one byte for a name, which is not UTF-8 though the
flags say so. Nothing but the directory is there. -/
def Zip.illNamed : Bytes :=
  [0x50, 0x4b, 1, 2, 20, 0, 20, 0, 0, 8] ++ List.replicate 18 0 ++ [1] ++ List.replicate 17 0 ++
    [0xff] ++ [0x50, 0x4b, 5, 6, 0, 0, 0, 0, 1, 0, 1, 0, 47, 0, 0, 0] ++ List.replicate 6 0

/-- A name in the directory that is not UTF-8 comes out of opening the archive as it is. -/
theorem translated_illNamed : ∃ (u : Reference .standard) (why : DecodeFault),
    Reference.parse .standard "kls:file:///l.jar!/a".toList = .ok u ∧
      u.archivePath = .ok "/l.jar".toList ∧
      (listEntries (Zip.opener .none [("/l.jar".toList, .ok Zip.illNamed)]) u).value =
        .error (.trouble ⟨.notText, why.message⟩) ∧
      (readText Codecs.builtIn (Zip.opener .none [("/l.jar".toList, .ok Zip.illNamed)]) u
        none).value = .error (.trouble ⟨.notText, why.message⟩) ∧
      ¬Translated
        (listEntries (Zip.opener .none [("/l.jar".toList, .ok Zip.illNamed)]) u).value := by
  let why : DecodeFault := ⟨"utf-8", 0xff, 0, 1, .startByte⟩
  have hu : Reference.parse .standard "kls:file:///l.jar!/a".toList =
      .ok (.ofSpecific .standard "file:///l.jar!/a".toList) := rfl
  have hpath : (Reference.ofSpecific .standard "file:///l.jar!/a".toList).archivePath =
      .ok "/l.jar".toList := rfl
  have hdirectory : Zip.readDirectory Zip.illNamed = .error (.badName why) := by decide +kernel
  have hopen : Zip.opener .none [("/l.jar".toList, .ok Zip.illNamed)] "/l.jar".toList =
      .error (.trouble (Zip.Fault.badName why).trouble : Failure .standard) := by
    have hread : Zip.readFile [("/l.jar".toList, .ok Zip.illNamed)] "/l.jar".toList =
        .ok Zip.illNamed := rfl
    simp only [Zip.opener, Zip.openArchive, hread, Zip.Archive.ofFile, hdirectory]
    rfl
  refine ⟨_, why, hu, hpath, value_withArchive_of_no_archive hpath hopen, ?_, fun h => ?_⟩
  · rw [value_readText, readData, value_withArchive_of_no_archive hpath hopen]
    rfl
  · rw [listEntries, value_withArchive_of_no_archive hpath hopen, translated_error_iff] at h
    obtain ⟨e, he⟩ := h
    cases he

end EntryRef
