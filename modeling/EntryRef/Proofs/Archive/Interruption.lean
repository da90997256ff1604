import EntryRef.Proofs.Archive.Remains

/-!
# What extraction leaves where it fails

The file to extract to is made behind the check of the entry's name and in front of the entry's
stream. So all that fails before leaves the directory as it is (`FailsEarly`), and where the stream
cannot be opened or breaks off there is one more file, with what was read of the stream
(`Entry.BreaksOff`). For a stream that is a source these are the chunks that its reads gave, and for
an entry in memory they are the front of its data.

None of this depends on the opener: `extract_interrupted` holds of all of them, and of all
directories that were opened, with whatever files in them.
-/

namespace EntryRef

open Text
open Scratch (Directory File IsToken)

variable {table : FlagTable} {opener : Opener table} {u : Reference table} {d : Directory}
  {files : List File} {tokens : List Text}

/-- An extraction fails before a file is made: the reference has no path, the archive is not opened,
the entry is not found, or its name has no extension. -/
inductive FailsEarly (opener : Opener table) (u : Reference table) : Failure table → Prop
  | path {why : Authority.Fault} (hpath : u.archivePath = .error why) :
    FailsEarly opener u (.authority why)
  | opening {path : Text} {e : Failure table} (hpath : u.archivePath = .ok path)
    (hopen : opener path = .error e) : FailsEarly opener u (openFailure u path e)
  | lookup {path : Text} {h : Handle table} {e : Failure table} (hpath : u.archivePath = .ok path)
    (hopen : opener path = .ok h) (hfind : (findEntry u path h).value = .error e) :
    FailsEarly opener u e
  | naming {path : Text} {h : Handle table} {entry : Entry table}
    (hpath : u.archivePath = .ok path) (hopen : opener path = .ok h)
    (hfind : (findEntry u path h).value = .ok entry) (hdot : '.' ∉ afterLast '/' entry.name) :
    FailsEarly opener u (.archive ⟨.noExtension entry.name path, some path, some u⟩)

namespace Entry

/-- The stream of the entry is not opened, or fails after the given data. -/
inductive BreaksOff (entry : Entry table) : Bytes → Failure table → Prop
  | unopened {why : Failure table} (hstream : entry.stream = .error why) : BreaksOff entry [] why
  | broken {copied : Int → Copied (Failure table)} {why : Failure table}
    (hstream : entry.stream = .ok copied) (hfault : (copied copySize).fault = some why) :
    BreaksOff entry (copied copySize).writes.flatten why

variable {entry : Entry table} {data : Bytes} {why : Failure table}

/-- What a source breaks off after are the chunks that its reads gave. -/
theorem BreaksOff.exists_failsAfter {σ : Type} {src : Source (Failure table) σ} {s : σ}
    (h : entry.BreaksOff data why) (hsource : entry.stream = .ok fun size => src.copy size s) :
    ∃ chunks, src.FailsAfter copySize s chunks why ∧ data = chunks.flatten := by
  cases h with
  | unopened hstream => cases hsource.symm.trans hstream
  | broken hstream hfault =>
    obtain rfl := Except.ok.inj (hsource.symm.trans hstream)
    exact ⟨_, Source.failsAfter_of_copy hfault, rfl⟩

/-- What an entry in memory breaks off after is the front of its data. -/
theorem BreaksOff.prefix_of_item {item : Memory.Item table}
    (h : item.toEntry.BreaksOff data why) : data <+: item.data := by
  cases h with
  | unopened => exact List.nil_prefix
  | broken hstream hfault =>
    simp only [Memory.Item.toEntry, Memory.Item.stream] at hstream
    split at hstream
    · cases hstream
    · obtain rfl := Except.ok.inj hstream
      exact (Source.prefix_copy_broken _ _).trans (List.take_prefix _ _)
    · obtain rfl := Except.ok.inj hstream
      rw [Source.fault_copy_memory] at hfault
      cases hfault

end Entry

/-! ### Failing before there is a file -/

theorem extract_of_failsEarly {e : Failure table} (h : FailsEarly opener u e) (d : Directory)
    (tokens : List Text) : (extract opener u d tokens).value = ⟨.error e, d, tokens⟩ := by
  cases h with
  | path hpath => rw [extract, value_withArchive_of_no_path hpath]
  | opening hpath hopen => rw [extract, value_withArchive_of_no_archive hpath hopen]
  | lookup hpath hopen hfind =>
    rw [extract, value_withArchive hpath hopen, Traced.value_bind, hfind]
    rfl
  | naming hpath hopen hfind hdot =>
    rw [extract, value_withArchive hpath hopen, Traced.value_bind, hfind]
    exact value_extractEntry_of_no_dot _ _ hdot d tokens

/-! ### Failing at the stream -/

/-- What comes of extracting an entry, by the step at which it ends: the check of the name, making
the file, opening the stream, reading it, or all of them. -/
inductive EndsAt (u : Reference table) (path : Text) (entry : Entry table) (d : Directory)
    (files : List File) (tokens : List Text) : Extraction table → Prop
  | naming (hdot : '.' ∉ afterLast '/' entry.name) :
    EndsAt u path entry d files tokens
      ⟨.error (.archive ⟨.noExtension entry.name path, some path, some u⟩), d.withFiles files,
        tokens⟩
  | creating {fault : Scratch.Fault} {rest : List Text} :
    EndsAt u path entry d files tokens ⟨.error (.scratch fault), d.withFiles files, rest⟩
  | opening {token : Text} {why : Failure table} {rest : List Text} (htoken : token ∈ tokens)
    (hnew : targetName entry.name token ∉ files.map File.name)
    (hstream : entry.stream = .error why) :
    EndsAt u path entry d files tokens
      ⟨.error (readFailure u path
          (.notExtracted entry.name path (pathIn d (targetName entry.name token))) why),
        d.withFiles (files ++ [⟨targetName entry.name token, []⟩]), rest⟩
  | reading {token : Text} {copied : Int → Copied (Failure table)}
    {why : Failure table} {rest : List Text} (htoken : token ∈ tokens)
    (hnew : targetName entry.name token ∉ files.map File.name)
    (hstream : entry.stream = .ok copied) (hfault : (copied copySize).fault = some why) :
    EndsAt u path entry d files tokens
      ⟨.error (readFailure u path
          (.notExtracted entry.name path (pathIn d (targetName entry.name token))) why),
        d.withFiles (files ++ [⟨targetName entry.name token, (copied copySize).writes.flatten⟩]),
        rest⟩
  | done {token : Text} {copied : Int → Copied (Failure table)} {rest : List Text}
    (htoken : token ∈ tokens) (hnew : targetName entry.name token ∉ files.map File.name)
    (hstream : entry.stream = .ok copied) (hfault : (copied copySize).fault = none) :
    EndsAt u path entry d files tokens
      ⟨.ok (pathIn d (targetName entry.name token)),
        d.withFiles (files ++ [⟨targetName entry.name token, (copied copySize).writes.flatten⟩]),
        rest⟩

private theorem endsAt_extractEntry (hopen : d.closed = false) (hroot : ∃ c ∈ d.path, c ≠ '/')
    (htokens : ∀ t ∈ tokens, IsToken t) (path : Text) (entry : Entry table) :
    EndsAt u path entry d files tokens
      (extractEntry u path entry (d.withFiles files) tokens).value := by
  obtain ⟨hstart, hstop⟩ := slash_not_mem_ends entry.name
  have hdotted : '/' ∉ '.' :: afterLast '.' (afterLast '/' entry.name) := fun h =>
    (List.mem_cons.mp h).elim (fun h => absurd h (by decide)) hstop
  by_cases hdot : '.' ∉ afterLast '/' entry.name
  · rw [value_extractEntry_of_no_dot u path hdot]
    exact .naming hdot
  rw [value_extractEntry u path (not_not.mp hdot)]
  obtain ⟨rest, -, ⟨fault, -, hcreate⟩ | ⟨token, htoken, hnew, hlong, hcreate⟩⟩ :=
    Directory.create_outcome files hopen hstart hdotted htokens
  · rw [hcreate]
    exact .creating
  -- the file is there, so that its size can be told
  have hsize := Directory.size_new hroot (isSegment_targetName entry.name (htokens token htoken))
    hnew hlong
  have htarget : before '.' (afterLast '/' entry.name) ++ token ++
      '.' :: afterLast '.' (afterLast '/' entry.name) = targetName entry.name token := rfl
  rw [htarget] at hnew hcreate
  rw [hcreate]
  simp only [fillFile, hsize, Except.mapError]
  cases hstream : entry.stream with
  | error why => exact .opening htoken hnew hstream
  | ok copied =>
    simp only
    rw [Directory.write_append hnew]
    cases hfault : (copied copySize).fault with
    | some why => exact .reading htoken hnew hstream hfault
    | none => exact .done htoken hnew hstream hfault

/-- Where there is a problem with reading, the stream has broken off, and what it gave is there. -/
theorem EndsAt.exists_breaksOff {path : Text} {entry : Entry table} {x : Extraction table}
    (h : EndsAt u path entry d files tokens x) {e : ArchiveError table}
    (hresult : x.result = .error (.archive e)) (hkind : e.problem.kind = .reading) :
    ∃ token ∈ tokens, ∃ data why, targetName entry.name token ∉ files.map File.name ∧
      x.directory = d.withFiles (files ++ [⟨targetName entry.name token, data⟩]) ∧
      entry.BreaksOff data why := by
  cases h with
  | naming =>
    obtain rfl := Failure.archive.inj (Except.error.inj hresult)
    cases hkind
  | creating => cases hresult
  | opening htoken hnew hstream => exact ⟨_, htoken, _, _, hnew, rfl, .unopened hstream⟩
  | reading htoken hnew hstream hfault =>
    exact ⟨_, htoken, _, _, hnew, rfl, .broken hstream hfault⟩
  | done => cases hresult

/-- **What a failure leaves.** Whatever fails before there is a file leaves the directory as it is.
If an entry is found and there is a problem with reading, then its stream has broken off, and there
is one more file, of a new name, with what the stream gave before. -/
theorem extract_interrupted {s : Scratch.Surroundings} {default : Option Text}
    {r : Scratch.Request} (hd : Scratch.openDirectory s default r = .ok d) (files : List File)
    (htokens : ∀ t ∈ tokens, IsToken t) (opener : Opener table) (u : Reference table) :
    (∀ e, FailsEarly opener u e →
      (extract opener u (d.withFiles files) tokens).value.result = .error e ∧
        (extract opener u (d.withFiles files) tokens).value.directory = d.withFiles files) ∧
    ∀ entry, Finds opener u entry → ∀ e,
      (extract opener u (d.withFiles files) tokens).value.result = .error (.archive e) →
      e.problem.kind = .reading →
      ∃ token ∈ tokens, ∃ data why, targetName entry.name token ∉ files.map File.name ∧
        (extract opener u (d.withFiles files) tokens).value.directory =
          d.withFiles (files ++ [⟨targetName entry.name token, data⟩]) ∧
        entry.BreaksOff data why ∧
        (∀ (σ : Type) (src : Source (Failure table) σ) (state : σ),
          (entry.stream = .ok fun size => src.copy size state) →
            ∃ chunks, src.FailsAfter copySize state chunks why ∧ data = chunks.flatten) ∧
        ∀ item : Memory.Item table, entry = item.toEntry → data <+: item.data := by
  obtain ⟨hopen, -, hroot⟩ := Scratch.openDirectory_spec hd
  refine ⟨fun e he => ?_, fun entry hentry e hresult hkind => ?_⟩
  · rw [extract_of_failsEarly he]
    exact ⟨rfl, rfl⟩
  obtain ⟨path, h, hpath, hhandle, hfind⟩ := hentry
  have hvalue : (extract opener u (d.withFiles files) tokens).value =
      (extractEntry u path entry (d.withFiles files) tokens).value := by
    rw [extract, value_withArchive hpath hhandle, Traced.value_bind, hfind]
  rw [hvalue] at hresult ⊢
  obtain ⟨token, htoken, data, why, hnew, hdirectory, hbreaks⟩ :=
    (endsAt_extractEntry hopen hroot htokens path entry).exists_breaksOff hresult hkind
  refine ⟨token, htoken, data, why, hnew, hdirectory, hbreaks, ?_, ?_⟩
  · intro σ src state hsource
    exact hbreaks.exists_failsAfter hsource
  · rintro item rfl
    exact hbreaks.prefix_of_item

/-- An archive in memory with one entry, whose data break off behind two bytes. -/
def Memory.breakingOff : Opener .standard :=
  Memory.opener [("l.jar".toList,
    .ok [⟨"x.y.txt".toList, [1, 2, 3], none, some (.trouble ⟨.endOfData, []⟩), 2⟩])]

/-- Where there is no archive no file is made, and of an entry that breaks off a file is left. -/
theorem extract_interrupted_memory : ∃ d : Directory,
    (extract Memory.breakingOff (.ofSpecific _ "m.jar!/x.y.txt".toList) (d.withFiles [])
      [['a']]).value.directory = d.withFiles [] ∧
    ∃ data, (extract Memory.breakingOff (.ofSpecific _ "l.jar!/x.y.txt".toList) (d.withFiles [])
        [['a']]).value.directory = d.withFiles [⟨"xa.txt".toList, data⟩] ∧
      data <+: [1, 2, 3] := by
  have hd : Scratch.openDirectory ⟨["/tmp".toList], "/tmp".toList, none, [], ⟨.root, []⟩,
      "0".toList⟩ (some Scratch.firstName) ⟨none, none, true⟩ =
      .ok ⟨"/tmp/tmp0klsurl".toList, true, false, some []⟩ := rfl
  have htokens : ∀ t ∈ [['a']], IsToken t := by decide
  have hpath : (Reference.ofSpecific .standard "m.jar!/x.y.txt".toList).archivePath =
      .ok "m.jar".toList := rfl
  have hfinds : Finds Memory.breakingOff (.ofSpecific _ "l.jar!/x.y.txt".toList) _ :=
    ⟨"l.jar".toList, _, rfl, rfl, rfl⟩
  have hresult : (extract Memory.breakingOff (.ofSpecific _ "l.jar!/x.y.txt".toList)
      (Directory.withFiles ⟨"/tmp/tmp0klsurl".toList, true, false, some []⟩ [])
      [['a']]).value.result =
      .error (.archive ⟨.notExtracted "x.y.txt".toList "l.jar".toList
        "/tmp/tmp0klsurl/xa.txt".toList ⟨.endOfData, []⟩, some "l.jar".toList,
        some (.ofSpecific _ "l.jar!/x.y.txt".toList)⟩) := by
    decide +kernel
  have hinterrupted := extract_interrupted hd [] htokens Memory.breakingOff
  obtain ⟨token, htoken, data, -, -, hdirectory, -, -, hprefix⟩ :=
    (hinterrupted _).2 _ hfinds _ hresult rfl
  obtain rfl := List.mem_singleton.mp htoken
  exact ⟨_, ((hinterrupted _).1 _ (.opening hpath rfl)).2, data, hdirectory, hprefix _ rfl⟩

end EntryRef
