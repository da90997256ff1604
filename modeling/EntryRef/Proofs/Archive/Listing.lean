import EntryRef.Archive.Contents
import EntryRef.Proofs.Archive.Handle
import EntryRef.Proofs.Reference.Entry
import EntryRef.Proofs.Zip.Archive

/-!
# Listed references

`listEntries` gives a reference for each listed member of an archive, in order, and each of them has
the archive and the flags of the reference that was listed, names the member but for leading
slashes, is read back from its text, and lists the same (`listEntries_law`).

A listed reference leads back to its member where names differ, with one exception: a member whose
name starts with a slash is listed and cannot be found, since leading slashes do not count where
members are looked up (`findEntry_listed_iff`).
-/

namespace EntryRef

open Text

variable {table : FlagTable} {u : Reference table} {tools : Zip.Tools} {codecs : Codecs}

/-! ### Operations on an open archive -/

theorem listEntries_eq_ok_iff {opener : Opener table} {es : List (Reference table)} :
    (listEntries opener u).value = .ok es ↔ ∃ path h entries, u.archivePath = .ok path ∧
      opener path = .ok h ∧ h.entries = .ok entries ∧
      es = entries.map fun entry => u.withEntry entry.name := by
  rw [listEntries, value_withArchive_eq_ok_iff]
  refine exists_congr fun path => exists_congr fun h => ?_
  simp only [Traced.value_bind, Handle.list]
  cases h.entries with
  | error why => simp
  | ok entries => simp [eq_comm]

theorem findEntry_eq_ok_iff {path name : Text} {h : Handle table} {entry : Entry table}
    (hname : u.entryName? = some name) :
    (findEntry u path h).value = .ok entry ↔ h.entry? name = some entry := by
  simp only [findEntry, hname, Traced.value_bind, Handle.lookup]
  cases h.entry? name with
  | none => simp
  | some found => simp

/-- A lookup that fails is a problem of its own kind, which comes from nothing else. -/
theorem findEntry_eq_error {path : Text} {h : Handle table} {e : Failure table}
    (hfind : (findEntry u path h).value = .error e) :
    ∃ problem, e = .archive ⟨problem, some path, some u⟩ ∧ problem.kind = .lookup ∧
      problem.cause? = none := by
  cases hname : u.entryName? with
  | none =>
    simp only [findEntry, hname] at hfind
    cases hfind
    exact ⟨_, rfl, rfl, rfl⟩
  | some name =>
    simp only [findEntry, hname, Traced.value_bind] at hfind
    split at hfind
    · cases hfind
      exact ⟨_, rfl, rfl, rfl⟩
    · cases hfind

theorem value_readData {opener : Opener table} {path : Text} {h : Handle table}
    (hpath : u.archivePath = .ok path) (hopen : opener path = .ok h) {entry : Entry table}
    (hentry : (findEntry u path h).value = .ok entry) :
    (readData opener u).value = match entry.readAll with
      | .error why => .error (readFailure u path (.unreadable entry.name path) why)
      | .ok data => .ok (path, data) := by
  simp only [readData, value_withArchive hpath hopen, Traced.value_bind, hentry]
  cases entry.readAll <;> rfl

/-- The name of the encoding that is used where one is asked for, or none is. -/
def encodingFor : Option Text → Text
  | none | some [] => defaultEncoding
  | some name => name

theorem value_readText (codecs : Codecs) (opener : Opener table) (encoding : Option Text) :
    (readText codecs opener u encoding).value = (readData opener u).value.bind
      fun read => textOf codecs u read.1 (encodingFor encoding) read.2 := by
  simp only [readText, Traced.value_bind]
  cases (readData opener u).value <;> rfl

/-- Data in an encoding that is built in are text, or no text, whatever else is registered. -/
theorem textOf_of_ofName {path encoding : Text} {e : Encoding} (hnull : '\x00' ∉ encoding)
    (hname : Encoding.ofName encoding = .ok e) (data : Bytes) :
    textOf codecs u path encoding data =
      if data.isEmpty then .ok []
      else match e.decode data with
        | .ok t => .ok t
        | .error why =>
          .error (.archive ⟨.notText (u.inner?.getD []) path encoding why, some path, some u⟩) := by
  rw [textOf, if_neg (by simpa using hnull), codecs.find_of_ofName hname]
  simp only [Encoding.codec]
  cases e.decode data <;> rfl

/-- What is read as text is an entry that has been found. -/
theorem kind_of_textOf {path encoding : Text} {data : Bytes} {e : ArchiveError table}
    (h : textOf codecs u path encoding data = .error (.archive e)) : e.problem.kind = .reading := by
  unfold textOf at h
  split at h
  · cases h
  · split at h
    · cases h
    · split at h
      · cases h
      · split at h
        · cases h
        · cases h
          rfl
        · cases h

/-- A trouble with the data of an entry is a problem with reading, or stays a trouble. -/
theorem kind_of_readFailure {path : Text} {problem : Trouble → ArchiveProblem} {why : Trouble}
    {e : ArchiveError table} (hproblem : ∀ why, (problem why).kind = .reading)
    (h : readFailure u path problem (.trouble why) = .archive e) : e.problem.kind = .reading := by
  simp only [readFailure] at h
  split at h
  · cases h
    exact hproblem why
  · cases h

/-! ### Listing -/

/-- The reference `e` leads to the member `m` of the archive of `u`, with the flags of `u`, and is
read back from its text. -/
structure Lists (u e : Reference table) (m : Zip.Member) : Prop where
  archive : e.archive = u.archive
  flags : e.flags = u.flags
  name : e.entryName? = some (m.name.dropWhile (· == '/'))
  round_trip : Reference.parse table e.toText = .ok e

theorem lists_withEntry (ht : table.Lawful) (hu : u.Sound) (m : Zip.Member) :
    Lists u (u.withEntry m.name) m where
  archive := u.archive_withEntry m.name
  flags := u.flags_withEntry m.name
  name := u.entryName?_withEntry m.name
  round_trip := hu.parse_toText_withEntry m.name ht

/-- The listing of an archive among some files has its listed members, in order. -/
theorem listEntries_files {files : Zip.Files} {es : List (Reference table)} :
    (listEntries (Zip.opener tools files) u).value = .ok es ↔ ∃ path a, u.archivePath = .ok path ∧
      (Zip.openArchive tools files path : Except (Failure table) Zip.Archive) = .ok a ∧
      (∀ m ∈ a.members, m.name ≠ []) ∧
      es = (a.members.filter fun m => m.IsListed).map fun m => u.withEntry m.name := by
  rw [listEntries_eq_ok_iff]
  constructor
  · rintro ⟨path, h, entries, hpath, hopen, hentries, rfl⟩
    obtain ⟨a, ha, rfl⟩ := Zip.opener_eq_ok_iff.mp hopen
    obtain ⟨ms, hms, rfl⟩ := Zip.Archive.entries_handle_eq_ok_iff.mp hentries
    obtain ⟨hne, rfl⟩ := Zip.Archive.files_eq_ok_iff.mp hms
    exact ⟨path, a, hpath, ha, hne, List.map_map⟩
  · rintro ⟨path, a, hpath, ha, hne, rfl⟩
    have hms := Zip.Archive.files_eq_ok_iff.mpr ⟨hne, rfl⟩
    refine ⟨path, a.handle, _, hpath, Zip.opener_eq_ok_iff.mpr ⟨a, ha, rfl⟩,
      Zip.Archive.entries_handle_eq_ok_iff.mpr ⟨_, hms, rfl⟩, ?_⟩
    rw [List.map_map]
    rfl

/-- **Listing.** A listing has a reference for each listed member of the archive, in order; each
leads to its member, and lists the same. -/
theorem listEntries_law (ht : table = .standard ∨ table = .extended) {s : Text}
    (hu : Reference.parse table s = .ok u) {files : Zip.Files} {es : List (Reference table)}
    (hes : (listEntries (Zip.opener tools files) u).value = .ok es) :
    ∃ path a, u.archivePath = .ok path ∧
      (Zip.openArchive tools files path : Except (Failure table) Zip.Archive) = .ok a ∧
      List.Forall₂ (Lists u) es (a.members.filter fun m => m.IsListed) ∧
      ∀ e ∈ es, (listEntries (Zip.opener tools files) e).value = .ok es := by
  have hlawful := FlagTable.lawful_of_known ht
  have hsound : u.Sound := Reference.sound_of_parse hlawful hu
  obtain ⟨path, a, hpath, ha, hne, rfl⟩ := listEntries_files.mp hes
  refine ⟨path, a, hpath, ha, ?_, ?_⟩
  · rw [List.forall₂_map_left_iff, List.forall₂_same]
    exact fun m _ => lists_withEntry hlawful hsound m
  · intro e he
    obtain ⟨m, -, rfl⟩ := List.mem_map.mp he
    refine listEntries_files.mpr ⟨path, a, ?_, ha, hne, ?_⟩
    · rw [Reference.archivePath_withEntry, hpath]
    · exact List.map_congr_left fun x _ => (Reference.withEntry_withEntry u m.name x.name).symm

/-- The archive of one member at the path `/l.jar`. -/
private theorem openArchive_single :
    (Zip.openArchive .none (Zip.singleFiles "b! %.txt".toList) "/l.jar".toList :
      Except (Failure .standard) Zip.Archive) = .ok (Zip.singleArchive "b! %.txt".toList) :=
  Zip.openArchive_singleFiles (by decide +kernel)

/-- The name of the only member has characters that are encoded, and the mark of a boundary. -/
theorem listEntries_law_single : ∃ u e : Reference .standard,
    Reference.parse .standard "kls:file:///l.jar?source=true#x".toList = .ok u ∧
      e.toText = "kls:file:///l.jar!/b%21%20%25.txt?source=true".toList ∧
      (listEntries (Zip.opener .none (Zip.singleFiles "b! %.txt".toList)) u).value = .ok [e] ∧
      Reference.parse .standard e.toText = .ok e := by
  have hu : Reference.parse .standard "kls:file:///l.jar?source=true#x".toList =
      .ok (.ofSpecific .standard "file:///l.jar?source=true".toList) := rfl
  have hpath : (Reference.ofSpecific .standard "file:///l.jar?source=true".toList).archivePath =
      .ok "/l.jar".toList := rfl
  have hes := listEntries_files.mpr ⟨_, _, hpath, openArchive_single, by decide, rfl⟩
  obtain ⟨path, a, -, -, hlists, -⟩ := listEntries_law (.inl rfl) hu hes
  obtain ⟨m, ms, he, -, -⟩ := List.forall₂_cons_left_iff.mp hlists
  exact ⟨_, _, hu, rfl, hes, he.round_trip⟩

/-! ### Finding what is listed -/

/-- Reading the reference `e` reads the member `m` of the archive at `path`, in so far as its data
can be read; the member is found in any case. -/
structure Reads (tools : Zip.Tools) (files : Zip.Files) (path : Text) (a : Zip.Archive)
    (e : Reference table) (m : Zip.Member) : Prop where
  data : (readData (Zip.opener tools files) e).value = match a.readMember m with
    | .ok data => .ok (path, data)
    | .error fault => .error (readFailure e path (.unreadable m.name path) (.trouble fault.trouble))
  found : ∀ codecs encoding problem,
    (readText codecs (Zip.opener tools files) e encoding).value = .error (.archive problem) →
      problem.problem.kind ≠ .lookup

private theorem reads_of_findEntry {files : Zip.Files} {path : Text} {a : Zip.Archive}
    {e : Reference table} {m : Zip.Member} (hpath : e.archivePath = .ok path)
    (ha : (Zip.openArchive tools files path : Except (Failure table) Zip.Archive) = .ok a)
    (hfind : (findEntry e path a.handle).value = .ok (a.entry m)) :
    Reads tools files path a e m := by
  have hdata : (readData (Zip.opener tools files) e).value = match a.readMember m with
      | .ok data => .ok (path, data)
      | .error fault =>
        .error (readFailure e path (.unreadable m.name path) (.trouble fault.trouble)) := by
    rw [value_readData hpath (Zip.opener_eq_ok_iff.mpr ⟨a, ha, rfl⟩) hfind]
    simp only [Zip.Archive.entry]
    cases a.readMember m <;> rfl
  refine ⟨hdata, fun codecs encoding problem hread => ?_⟩
  rw [value_readText, hdata] at hread
  -- the member has been found, so that it is reading that fails
  have hkind : problem.problem.kind = .reading := by
    cases hmember : a.readMember m with
    | ok data =>
      rw [hmember] at hread
      exact kind_of_textOf hread
    | error fault =>
      rw [hmember] at hread
      exact kind_of_readFailure (fun _ => rfl) (Except.error.inj hread)
  rw [hkind]
  decide

/-- Where names differ, a listed reference leads back to its member, unless the member's name starts
with a slash. -/
theorem findEntry_listed_iff {files : Zip.Files} {path : Text} {a : Zip.Archive}
    (hpath : u.archivePath = .ok path)
    (ha : (Zip.openArchive tools files path : Except (Failure table) Zip.Archive) = .ok a)
    (hnames : (a.members.map Zip.Member.name).Nodup) {es : List (Reference table)}
    (hes : (listEntries (Zip.opener tools files) u).value = .ok es) :
    List.Forall₂ (fun e m =>
      ((findEntry e path a.handle).value = .ok (a.entry m) ↔ m.name.head? ≠ some '/') ∧
        (m.name.head? ≠ some '/' → Reads tools files path a e m))
      es (a.members.filter fun m => m.IsListed) := by
  obtain ⟨path', a', hpath', ha', -, rfl⟩ := listEntries_files.mp hes
  obtain rfl : path = path' := Except.ok.inj (hpath.symm.trans hpath')
  obtain rfl : a = a' := Except.ok.inj (ha.symm.trans ha')
  rw [List.forall₂_map_left_iff, List.forall₂_same]
  intro m hm
  have hmember : m ∈ a.members := List.mem_of_mem_filter hm
  have hfind : (findEntry (u.withEntry m.name) path a.handle).value = .ok (a.entry m) ↔
      m.name.head? ≠ some '/' := by
    rw [findEntry_eq_ok_iff (u.entryName?_withEntry m.name)]
    exact Zip.Archive.entry?_handle_eq_some_iff hnames hmember
  refine ⟨hfind, fun hslash => reads_of_findEntry ?_ ha (hfind.mpr hslash)⟩
  rw [Reference.archivePath_withEntry, hpath]

theorem findEntry_listed_single : ∃ u e : Reference .standard,
    Reference.parse .standard "kls:file:///l.jar!/other".toList = .ok u ∧
      e.toText = "kls:file:///l.jar!/b%21%20%25.txt".toList ∧
      (listEntries (Zip.opener .none (Zip.singleFiles "b! %.txt".toList)) u).value = .ok [e] ∧
      (readData (Zip.opener .none (Zip.singleFiles "b! %.txt".toList)) e).value =
        .ok ("/l.jar".toList, [0x68, 0x69]) := by
  have hpath : (Reference.ofSpecific .standard "file:///l.jar!/other".toList).archivePath =
      .ok "/l.jar".toList := rfl
  have hes := listEntries_files.mpr ⟨_, _, hpath, openArchive_single, by decide, rfl⟩
  have hfind := findEntry_listed_iff hpath openArchive_single (by decide) hes
  obtain ⟨-, hreads⟩ := (List.forall₂_cons.mp hfind).1
  have hdata : (Zip.singleArchive "b! %.txt".toList).readMember
      (Zip.singleMember "b! %.txt".toList) = .ok [0x68, 0x69] := by
    decide +kernel
  refine ⟨_, _, rfl, rfl, hes, ?_⟩
  rw [(hreads (by decide)).data, hdata]

/-- A member whose name starts with a slash is listed and not found. -/
theorem findEntry_listed_slash : ∃ u e : Reference .standard,
    Reference.parse .standard "kls:file:///l.jar".toList = .ok u ∧
      e.toText = "kls:file:///l.jar!//a.txt".toList ∧
      (listEntries (Zip.opener .none (Zip.singleFiles "/a.txt".toList)) u).value = .ok [e] ∧
      (readText Codecs.builtIn (Zip.opener .none (Zip.singleFiles "/a.txt".toList)) e none).value =
        .error (.archive ⟨.noSuchEntry "a.txt" "/l.jar", some "/l.jar".toList, some e⟩) := by
  have hpath : (Reference.ofSpecific .standard "file:///l.jar".toList).archivePath =
      .ok "/l.jar".toList := rfl
  have hpath' := (Reference.archivePath_withEntry _ "/a.txt".toList).trans hpath
  have ha : (Zip.openArchive .none (Zip.singleFiles "/a.txt".toList) "/l.jar".toList :
      Except (Failure .standard) Zip.Archive) = .ok (Zip.singleArchive "/a.txt".toList) :=
    Zip.openArchive_singleFiles (by decide +kernel)
  have hes := listEntries_files.mpr ⟨_, _, hpath, ha, by decide, rfl⟩
  refine ⟨_, (Reference.ofSpecific _ "file:///l.jar".toList).withEntry "/a.txt".toList, rfl, rfl,
    hes, ?_⟩
  rw [value_readText, readData, value_withArchive hpath' (Zip.opener_eq_ok_iff.mpr ⟨_, ha, rfl⟩)]
  rfl

end EntryRef
