import EntryRef.Proofs.Archive.Extraction
import EntryRef.Proofs.Archive.Listing
import EntryRef.Proofs.Zip.CutOff

/-!
# Reading and extracting agree

An entry that can be read as Latin-1 text can be extracted, and the file has the bytes that write
the text (`extract_of_readText`). Reading takes the entry at once and extracting some bytes at a
time, so that there are two exceptions. Members that are not tame (`Zip.Archive.Tame`), since they
are cut off by the end of the archive's file or damaged behind their data, may be read and not be
extracted. Extracting then fails, and leaves a file with the first of the bytes. And where a
decompressor may be left with data that it holds back (`Zip.Archive.Even`), both come to the first
of the member's data, though not to the same part of them.
-/

namespace EntryRef

open Text
open EntryRef.Path (Posix)
open Scratch (Directory File IsToken plainDirectory openDirectory_plain)

/-! ### Latin-1 -/

namespace Text.Latin1

/-- The byte that writes a character, if there is one. -/
def byte? (c : Char) : Option UInt8 :=
  if c.toNat < 256 then some (UInt8.ofNat c.toNat) else none

/-- The bytes that write a text, if all its characters can be written. -/
def encode? (t : Text) : Option Bytes := t.mapM byte?

private theorem byte?_ofNat (b : UInt8) : byte? (Char.ofNat b.toNat) = some b := by
  have hlt : b.toNat < 256 := b.toNat_lt
  have hvalid : b.toNat.isValidChar := .inl (by omega)
  have hchar : (Char.ofNat b.toNat).toNat = b.toNat := by
    rw [Char.ofNat, dif_pos hvalid]
    rfl
  rw [byte?, hchar, if_pos hlt, UInt8.ofNat_toNat]

private theorem encode?_map (bs : Bytes) :
    encode? (bs.map fun b => Char.ofNat b.toNat) = some bs := by
  induction bs with
  | nil => rfl
  | cons b bs ih =>
    rw [encode?] at ih ⊢
    rw [List.map_cons, List.mapM_cons, byte?_ofNat, ih]
    rfl

/-- Every byte is a character. -/
theorem gather_segments (decoder : Text) (bs : Bytes) (start : Nat) (rest : Bytes)
    (acc : Array Char) : gather decoder (segments latin1Next bs) start rest acc =
      .ok (acc.toList ++ bs.map fun b => Char.ofNat b.toNat) := by
  induction bs generalizing start rest acc with
  | nil => exact congrArg Except.ok (List.append_nil _).symm
  | cons b bs ih =>
    rw [segments_cons, gather]
    simp only [latin1Next, Nat.sub_self, List.drop_zero]
    rw [ih, Array.toList_push, List.append_assoc]
    rfl

private theorem decode_eq (bs : Bytes) :
    Encoding.latin1.decode bs = .ok (bs.map fun b => Char.ofNat b.toNat) :=
  gather_segments _ bs 0 bs #[]

end Text.Latin1

variable {table : FlagTable} {u : Reference table} {path t : Text} {data : Bytes}
  {tools : Zip.Tools} {codecs : Codecs}
  {zips : Zip.Files} {a : Zip.Archive} {m : Zip.Member}

/-- Text in Latin-1 has one character for each byte. -/
theorem textOf_latin1 (data : Bytes) :
    textOf codecs u path "latin-1" data = .ok (data.map fun b => Char.ofNat b.toNat) := by
  have hname : Encoding.ofName "latin-1" = .ok .latin1 := by decide +kernel
  rw [textOf_of_ofName (by decide) hname]
  split
  · next hempty =>
    rw [List.isEmpty_iff.mp hempty]
    rfl
  · simp only [Latin1.decode_eq]

/-! ### Reading -/

/-- The reference leads to the member `m` of the archive `a`, whose file is at `path`. -/
structure LeadsTo (tools : Zip.Tools) (zips : Zip.Files) (u : Reference table) (path : Text)
    (a : Zip.Archive) (m : Zip.Member) : Prop where
  path_eq : u.archivePath = .ok path
  archive_eq : (Zip.openArchive tools zips path : Except (Failure table) Zip.Archive) = .ok a
  member_eq : u.entryName?.bind a.member? = some m

theorem LeadsTo.opener_eq (h : LeadsTo tools zips u path a m) :
    (Zip.opener tools zips path : Except (Failure table) (Handle table)) = .ok a.handle :=
  Zip.opener_eq_ok_iff.mpr ⟨a, h.archive_eq, rfl⟩

theorem LeadsTo.findEntry_eq (h : LeadsTo tools zips u path a m) :
    (findEntry u path a.handle).value = .ok (a.entry m) := by
  obtain ⟨name, hname, hmember⟩ := Option.bind_eq_some_iff.mp h.member_eq
  rw [findEntry_eq_ok_iff hname]
  exact Option.map_eq_some_iff.mpr ⟨m, hmember, rfl⟩

theorem LeadsTo.value_readText_latin1 (h : LeadsTo tools zips u path a m) (codecs : Codecs) :
    (readText codecs (Zip.opener tools zips) u (some "latin-1")).value = .ok t ↔
      ∃ bytes, a.readMember m = .ok bytes ∧ t = bytes.map fun b => Char.ofNat b.toNat := by
  have hencoding : encodingFor (some "latin-1") = "latin-1" := rfl
  rw [value_readText, value_readData h.path_eq h.opener_eq h.findEntry_eq, hencoding]
  simp only [Zip.Archive.entry]
  cases a.readMember m with
  | error e => simp [Except.mapError, Except.bind]
  | ok bytes =>
    simp only [Except.mapError, Except.bind, textOf_latin1, Except.ok.injEq, exists_eq_left']
    exact eq_comm

theorem member_of_findEntry {entry : Entry table}
    (h : (findEntry u path a.handle).value = .ok entry) :
    ∃ m, u.entryName?.bind a.member? = some m := by
  cases hname : u.entryName? with
  | none =>
    simp only [findEntry, hname] at h
    cases h
  | some name =>
    obtain ⟨m, hmember, -⟩ := Option.map_eq_some_iff.mp ((findEntry_eq_ok_iff hname).mp h)
    exact ⟨m, hmember⟩

/-- What can be read is a member of an archive. -/
theorem leadsTo_of_readData {read : Text × Bytes}
    (h : (readData (Zip.opener tools zips) u).value = .ok read) :
    ∃ path a m, LeadsTo tools zips u path a m := by
  rw [readData, value_withArchive_eq_ok_iff] at h
  obtain ⟨path, handle, hpath, hopen, hbody⟩ := h
  obtain ⟨a, ha, rfl⟩ := Zip.opener_eq_ok_iff.mp hopen
  rw [Traced.value_bind] at hbody
  cases hfind : (findEntry u path a.handle).value with
  | error e =>
    rw [hfind] at hbody
    cases hbody
  | ok entry =>
    obtain ⟨m, hmember⟩ := member_of_findEntry hfind
    exact ⟨path, a, m, hpath, ha, hmember⟩

/-! ### Extracting -/

variable {d : Directory} {files : List File} {tokens : List Text}

/-- The failure is a problem with reading, or the trouble of a library that decompresses the
member. -/
def Failure.OfReading (m : Zip.Member) (e : Failure table) : Prop :=
  (∃ problem, e = .archive problem ∧ problem.problem.kind = .reading) ∨
    m.IsPacked ∧ ∃ why, e = .trouble why

/-- What extracting leaves of the member `m` of which the data have been read: a new file with all
data, of which the path is returned; or, if the member is not tame, a new file with the first of the
data, and a failure; or, if some of the member's content may be held back, a new file with the first
of the content, be there a failure or not. -/
inductive Extracted (a : Zip.Archive) (m : Zip.Member) (d : Directory) (files : List File)
    (name : Text) (data : Bytes) : Extraction table → Prop
  | whole {rest : List Text} : Extracted a m d files name data
      ⟨.ok (Posix.ofText (d.path ++ '/' :: name)).toText,
        d.withFiles (files ++ [⟨name, data⟩]), rest⟩
  | part {first : Bytes} {e : Failure table} {rest : List Text} (htame : ¬a.Tame m)
      (hfirst : first <+: data) (he : e.OfReading m) :
      Extracted a m d files name data
        ⟨.error e, d.withFiles (files ++ [⟨name, first⟩]), rest⟩
  | held {first : Bytes} {result : Except (Failure table) Text} {rest : List Text}
      (hheld : ¬a.Even m) (hfirst : first <+: a.content m)
      (hok : ∀ target, result = .ok target →
        target = (Posix.ofText (d.path ++ '/' :: name)).toText)
      (he : ∀ e, result = .error e → e.OfReading m) :
      Extracted a m d files name data
        ⟨result, d.withFiles (files ++ [⟨name, first⟩]), rest⟩

/-- There is room for the file of an entry. -/
def HasRoomFor (d : Directory) (files : List File) (tokens : List Text) (entry : Text) : Prop :=
  Directory.HasRoom d.path files (before '.' (afterLast '/' entry))
    (afterLast '.' (afterLast '/' entry)) tokens

/-- The system can be asked about the file of an entry. -/
theorem null_not_mem_targetName {entry token : Text} (hnull : '\x00' ∉ entry)
    (htoken : IsToken token) : '\x00' ∉ targetName entry token := by
  have hsegment : '\x00' ∉ afterLast '/' entry := fun h => hnull (afterLast_subset '/' entry h)
  rw [targetName, List.mem_append, List.mem_append, List.mem_cons]
  rintro ((h | h) | h | h)
  · exact hsegment (before_subset '.' _ h)
  · exact absurd (htoken.digits _ h) (by decide)
  · exact absurd h (by decide)
  · exact hsegment (afterLast_subset '.' _ h)

/-- Where there is room, an entry whose data can be opened is copied to a new file. -/
theorem extractEntry_of_hasRoom (u : Reference table) (path : Text) {entry : Entry table}
    {stream : Int → Copied (Failure table)} (hstream : entry.stream = .ok stream)
    (hdot : '.' ∈ afterLast '/' entry.name) (hnull : '\x00' ∉ entry.name)
    (hopen : d.closed = false) (hroot : ∃ c ∈ d.path, c ≠ '/')
    (htokens : ∀ token ∈ tokens, IsToken token) (hroom : HasRoomFor d files tokens entry.name) :
    ∃ token ∈ tokens, targetName entry.name token ∉ files.map File.name ∧ ∃ rest,
      let target := (Posix.ofText (d.path ++ '/' :: targetName entry.name token)).toText
      (extractEntry u path entry (d.withFiles files) tokens).value =
        ⟨match (stream copySize).fault with
          | none => .ok target
          | some why => .error (readFailure u path (.notExtracted entry.name path target) why),
          d.withFiles (files ++
            [⟨targetName entry.name token, (stream copySize).writes.flatten⟩]), rest⟩ := by
  obtain ⟨hstart, hstop⟩ := slash_not_mem_ends entry.name
  obtain ⟨rest, token, htoken, hnew, hcreate⟩ := Directory.create_of_hasRoom hopen hstart hstop
    htokens (fun t ht => null_not_mem_targetName hnull (htokens t ht)) hroom
  have hsize := Directory.size_new hroot (isSegment_targetName entry.name (htokens token htoken))
    hnew (hroom.short token htoken)
  have htarget : Scratch.nameOf (before '.' (afterLast '/' entry.name)) token
      (afterLast '.' (afterLast '/' entry.name)) = targetName entry.name token := rfl
  rw [htarget] at hnew hcreate
  refine ⟨token, htoken, hnew, rest, ?_⟩
  rw [value_extractEntry u path hdot, hcreate]
  simp only [fillFile, hstream, hsize, Except.mapError, Directory.write_append hnew]
  cases (stream copySize).fault with
  | none => rfl
  | some why => rfl

theorem LeadsTo.value_extract (h : LeadsTo tools zips u path a m) (d : Directory)
    (tokens : List Text) :
    (extract (Zip.opener tools zips) u d tokens).value =
      (extractEntry u path (a.entry m) d tokens).value := by
  rw [extract, value_withArchive h.path_eq h.opener_eq, Traced.value_bind, h.findEntry_eq]

private theorem null_not_mem_name (m : Zip.Member) : '\x00' ∉ m.name :=
  not_mem_before '\x00' m.storedName

/-- A trouble of reading is a problem with reading. -/
theorem readFailure_of_isReading {why : Trouble} (h : why.kind.isReading = true)
    (problem : Trouble → ArchiveProblem) :
    readFailure u path problem (.trouble why) = .archive ⟨problem why, some path, some u⟩ := by
  simp only [readFailure, h, if_true]

private theorem ofReading_readFailure {why : Trouble} {problem : Trouble → ArchiveProblem}
    (hproblem : ∀ why, (problem why).kind = .reading)
    (h : why.kind.isReading = true ∨ m.IsPacked) :
    (readFailure u path problem (.trouble why)).OfReading m := by
  by_cases hkind : why.kind.isReading = true
  · rw [readFailure_of_isReading hkind]
    exact .inl ⟨_, rfl, hproblem why⟩
  · simp only [readFailure, hkind]
    exact .inr ⟨h.resolve_left hkind, why, rfl⟩

private theorem extracted_extractEntry (u : Reference table) (path : Text)
    (hdata : a.readMember m = .ok data)
    (hdot : '.' ∈ afterLast '/' m.name) (hopen : d.closed = false) (hroot : ∃ c ∈ d.path, c ≠ '/')
    (htokens : ∀ token ∈ tokens, IsToken token) (hroom : HasRoomFor d files tokens m.name) :
    ∃ token ∈ tokens, targetName m.name token ∉ files.map File.name ∧
      Extracted a m d files (targetName m.name token) data
        (extractEntry u path (a.entry m) (d.withFiles files) tokens).value := by
  obtain ⟨stream, hstream, htame⟩ := Zip.Archive.fault_copy_of_readMember table hdata
  obtain ⟨hfirst, hall, hfails⟩ := Zip.Archive.copies_content hstream
  obtain ⟨-, hcontent⟩ := Zip.Archive.content_of_readMember hdata
  obtain ⟨token, htoken, hnew, rest, hextract⟩ := extractEntry_of_hasRoom u path
    hstream hdot (null_not_mem_name m) hopen hroot htokens hroom
  refine ⟨token, htoken, hnew, ?_⟩
  rw [hextract]
  have hreading : ∀ {target : Text} {e : Failure table}, (stream copySize).fault = some e →
      (readFailure u path (.notExtracted m.name path target) e).OfReading m := by
    intro target e hfault
    obtain ⟨why, rfl, hwhy⟩ := hfails e hfault
    exact ofReading_readFailure (fun _ => rfl) hwhy
  by_cases heven : a.Even m
  · rw [hcontent heven]
    cases hfault : (stream copySize).fault with
    | none =>
      rw [hall heven hfault]
      exact .whole
    | some why =>
      refine .part (fun h => ?_) hfirst (hreading hfault)
      cases (htame heven h).symm.trans hfault
  · refine .held heven hfirst ?_ ?_
    · intro target htarget
      split at htarget
      · exact (Except.ok.inj htarget).symm
      · cases htarget
    · intro e he
      split at he
      · cases he
      · next why hfault =>
        cases he
        exact hreading hfault

end EntryRef
