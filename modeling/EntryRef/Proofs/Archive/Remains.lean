import EntryRef.Proofs.Archive.Agreement

/-!
# What extracting leaves

`Remains` are the three things that extracting to an opened directory can come to: nothing is made,
and the failure is no problem with reading; a file has what copying the member gives; or there is a
problem with reading, and a file has the first of the data. `remains_extract` says that there are no
others.
-/

namespace EntryRef

open Text
open EntryRef.Path (Posix)
open Scratch (Directory File IsToken)

variable {table : FlagTable} {u : Reference table} {path : Text} {tools : Zip.Tools}
  {zips : Zip.Files}
  {a : Zip.Archive} {m : Zip.Member} {d : Directory} {files : List File} {tokens : List Text}

/-- The path of a file in a directory. -/
def pathIn (d : Directory) (name : Text) : Text := (Posix.ofText (d.path ++ '/' :: name)).toText

/-- Copying the entry gives the data, without a failure. -/
def Entry.CopiesTo (entry : Entry table) (data : Bytes) : Prop :=
  ∃ copied, entry.stream = .ok copied ∧ (copied copySize).fault = none ∧
    (copied copySize).writes.flatten = data

/-- What copying a member gives is the first of its content, and all of it unless something is held
back. -/
theorem Entry.CopiesTo.content {data : Bytes} (h : (a.entry m : Entry table).CopiesTo data) :
    data <+: a.content m ∧ (a.Even m → data = a.content m) := by
  obtain ⟨copied, hstream, hfault, rfl⟩ := h
  obtain ⟨hfirst, hall, -⟩ := Zip.Archive.copies_content hstream
  exact ⟨hfirst, fun heven => hall heven hfault⟩

/-- What extracting to a directory with the given files can come to. -/
inductive Remains (tools : Zip.Tools) (zips : Zip.Files) (u : Reference table) (d : Directory)
    (files : List File) (tokens : List Text) : Extraction table → Prop
  /-- Nothing is made. -/
  | nothing {e : Failure table} {rest : List Text}
    (hkind : ∀ problem, e = .archive problem → problem.problem.kind ≠ .reading) :
    Remains tools zips u d files tokens ⟨.error e, d.withFiles files, rest⟩
  /-- A new file has the data. -/
  | whole {path token : Text} {a : Zip.Archive} {m : Zip.Member} {data : Bytes}
    {rest : List Text} (hleads : LeadsTo tools zips u path a m) (htoken : token ∈ tokens)
    (hnew : targetName m.name token ∉ files.map File.name)
    (hcopies : (a.entry m : Entry table).CopiesTo data) :
    Remains tools zips u d files tokens ⟨.ok (pathIn d (targetName m.name token)),
      d.withFiles (files ++ [⟨targetName m.name token, data⟩]), rest⟩
  /-- A new file has the first of the data. -/
  | part {path token : Text} {a : Zip.Archive} {m : Zip.Member} {first : Bytes}
    {e : Failure table} {rest : List Text} (hleads : LeadsTo tools zips u path a m)
    (htoken : token ∈ tokens) (hnew : targetName m.name token ∉ files.map File.name)
    (hfirst : first <+: a.content m)
    (hkind : ∀ problem, e = .archive problem → problem.problem.kind = .reading) :
    Remains tools zips u d files tokens ⟨.error e,
      d.withFiles (files ++ [⟨targetName m.name token, first⟩]), rest⟩

/-- An extraction that succeeds leaves one file more, with what copying the entry gives. -/
theorem Remains.of_ok {x : Extraction table} (h : Remains tools zips u d files tokens x)
    {target : Text} (htarget : x.result = .ok target) :
    ∃ name path a m data, LeadsTo tools zips u path a m ∧
      (a.entry m : Entry table).CopiesTo data ∧ target = pathIn d name ∧
      x.directory = d.withFiles (files ++ [⟨name, data⟩]) := by
  cases h with
  | nothing hkind => cases htarget
  | part hleads htoken hnew hfirst hkind => cases htarget
  | whole hleads htoken hnew hcopies =>
    cases htarget
    exact ⟨_, _, _, _, _, hleads, hcopies, rfl, rfl⟩

/-! ### Failures -/

/-- A failure to open an archive in a file is no problem with reading. -/
theorem kind_of_openFailure {e : Failure table} {problem : ArchiveError table}
    (h : Zip.opener tools zips path = .error e) (he : openFailure u path e = .archive problem) :
    problem.problem.kind = .opening := by
  obtain ⟨why, rfl⟩ := Zip.exists_openTrouble h
  unfold Zip.openTrouble at he
  split at he
  · cases he
    rfl
  split at he
  · cases he
    rfl
  · rw [openFailure] at he
    split at he
    · cases he
      rfl
    · cases he

theorem exists_of_mapError {α ε δ : Type} {f : ε → δ} {x : Except ε α} {e : δ}
    (h : x.mapError f = .error e) : ∃ why, e = f why := by
  cases x with
  | error why => exact ⟨why, (Except.error.inj h).symm⟩
  | ok y => cases h

/-! ### Extracting -/

private theorem remains_extractEntry (hleads : LeadsTo tools zips u path a m)
    (hopen : d.closed = false) (htokens : ∀ t ∈ tokens, IsToken t) :
    Remains tools zips u d files tokens
      (extractEntry u path (a.entry m) (d.withFiles files) tokens).value := by
  obtain ⟨hstart, hstop⟩ := slash_not_mem_ends m.name
  have hname : (a.entry m : Entry table).name = m.name := rfl
  by_cases hdot : '.' ∉ afterLast '/' (a.entry m : Entry table).name
  · rw [value_extractEntry_of_no_dot u path hdot]
    refine .nothing fun _ h => ?_
    cases h
    rintro ⟨⟩
  rw [value_extractEntry u path (not_not.mp hdot), hname]
  obtain ⟨rest, -, ⟨fault, hcreate⟩ | ⟨token, htoken, hnew, hcreate⟩⟩ :=
    Directory.create_cases files hopen hstart hstop htokens
  · rw [hcreate]
    refine .nothing ?_
    rintro _ ⟨⟩
  rw [hcreate]
  -- whatever goes wrong from here on is a problem with reading
  have hreading : ∀ {target} {why : Failure table} {problem}, (∃ t, why = .trouble t) →
      readFailure u path (.notExtracted m.name path target) why = .archive problem →
      problem.problem.kind = .reading := by
    rintro target _ problem ⟨t, rfl⟩ h
    exact kind_of_readFailure (fun _ => rfl) h
  simp only [fillFile, hname]
  split
  · next why _ hstream =>
    exact .part hleads htoken hnew List.nil_prefix fun _ =>
      hreading (Zip.Archive.trouble_of_stream hstream)
  · next why hsize =>
    exact .part hleads htoken hnew List.nil_prefix fun _ => hreading (exists_of_mapError hsize)
  · next copied _ hstream hsize =>
    obtain ⟨hfirst, -, hfails⟩ := Zip.Archive.copies_content hstream
    rw [Directory.write_append hnew]
    split
    · next why hfault =>
      obtain ⟨t, ht, -⟩ := hfails why hfault
      exact .part hleads htoken hnew hfirst fun _ => hreading ⟨t, ht⟩
    · next hfault => exact .whole hleads htoken hnew ⟨copied, hstream, hfault, rfl⟩

/-- **What extracting leaves.** -/
theorem remains_extract (tools : Zip.Tools) (zips : Zip.Files) (u : Reference table)
    (files : List File) (hopen : d.closed = false) (htokens : ∀ t ∈ tokens, IsToken t) :
    Remains tools zips u d files tokens
      (extract (Zip.opener tools zips) u (d.withFiles files) tokens).value := by
  cases hpath : u.archivePath with
  | error why =>
    rw [extract, value_withArchive_of_no_path hpath]
    refine .nothing ?_
    rintro _ ⟨⟩
  | ok path =>
    cases hhandle : (Zip.opener tools zips path : Except (Failure table) (Handle table)) with
    | error e =>
      rw [extract, value_withArchive_of_no_archive hpath hhandle]
      refine .nothing fun problem h => ?_
      rw [kind_of_openFailure hhandle h]
      decide
    | ok handle =>
      obtain ⟨a, ha, rfl⟩ := Zip.opener_eq_ok_iff.mp hhandle
      cases hfind : (findEntry u path a.handle).value with
      | error e =>
        rw [extract, value_withArchive hpath hhandle, Traced.value_bind, hfind]
        refine .nothing fun problem h => ?_
        obtain ⟨lookup, rfl, hkind, -⟩ := findEntry_eq_error hfind
        cases h
        rw [hkind]
        decide
      | ok entry =>
        obtain ⟨m, hmember⟩ := member_of_findEntry hfind
        have hleads : LeadsTo tools zips u path a m := ⟨hpath, ha, hmember⟩
        rw [hleads.value_extract]
        exact remains_extractEntry hleads hopen htokens

end EntryRef
