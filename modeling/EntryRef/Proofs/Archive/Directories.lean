import EntryRef.Proofs.Archive.Interruption
import EntryRef.Proofs.Archive.Reading
import EntryRef.Proofs.Percent.Ending

/-!
# Directories in archives

An archive may have members for its directories, of which the names end in a slash. They are not
listed, but they are looked up like all members, by the whole name. So what is found is a directory
if and only if the inner path ends in a slash, escaped or not, and is not made of slashes alone
(`isDirectory_of_pastLookup_iff`). It cannot be extracted then, since its last segment has no
extension; reading gives its data.
-/

namespace EntryRef

open Text
open Scratch (Directory)

variable {table : FlagTable} {α : Type} {opener : Opener table} {u : Reference table} {path : Text}
  {tools : Zip.Tools} {zips : Zip.Files} {a : Zip.Archive} {m : Zip.Member} {codecs : Codecs}

/-! ### Getting past the lookup -/

/-- What comes of an operation is not that there is no such entry. -/
def PastLookup (x : Except (Failure table) α) : Prop :=
  ∀ e, x = .error (.archive e) → e.problem.kind ≠ .lookup

/-- Where no entry is found, this is a problem with the lookup. -/
theorem not_pastLookup_of_findEntry {h : Handle table} {e : Failure table}
    (hfind : (findEntry u path h).value = .error e) :
    ¬PastLookup (.error e : Except (Failure table) α) := by
  obtain ⟨problem, rfl, hkind, -⟩ := findEntry_eq_error hfind
  exact fun hpast => hpast _ rfl hkind

private theorem value_readText_of_findEntry {h : Handle table} {e : Failure table}
    (hpath : u.archivePath = .ok path) (hopen : opener path = .ok h)
    (hfind : (findEntry u path h).value = .error e) (encoding : Option Text) :
    (readText codecs opener u encoding).value = .error e := by
  rw [value_readText, readData, value_withArchive hpath hopen, Traced.value_bind, hfind]
  rfl

/-- An operation on an archive that is open gets past the lookup if there is such an entry. -/
theorem exists_findEntry_of_pastLookup {h : Handle table} (hpath : u.archivePath = .ok path)
    (hopen : opener path = .ok h)
    (hpast : (∃ encoding, PastLookup (readText codecs opener u encoding).value) ∨
      ∃ d tokens, PastLookup (extract opener u d tokens).value.result) :
    ∃ entry, (findEntry u path h).value = .ok entry := by
  cases hfind : (findEntry u path h).value with
  | ok entry => exact ⟨entry, rfl⟩
  | error e =>
    obtain ⟨encoding, hread⟩ | ⟨d, tokens, hextract⟩ := hpast
    · rw [value_readText_of_findEntry hpath hopen hfind] at hread
      exact absurd hread (not_pastLookup_of_findEntry hfind)
    · rw [extract_of_failsEarly (.lookup hpath hopen hfind)] at hextract
      exact absurd hextract (not_pastLookup_of_findEntry hfind)

/-! ### Names of directories -/

private theorem Zip.Member.isDirectory?_eq_some_true_iff :
    m.isDirectory? = some true ↔ m.name.getLast? = some '/' := by
  simp [Zip.Member.isDirectory?, Option.map_eq_some_iff]

/-- The member that is found has the name that is looked up. -/
theorem LeadsTo.entryName?_eq (h : LeadsTo tools zips u path a m) : u.entryName? = some m.name := by
  obtain ⟨name, hname, hmember⟩ := Option.bind_eq_some_iff.mp h.member_eq
  obtain ⟨inner, -, rfl⟩ := Option.map_eq_some_iff.mp hname
  -- there are no leading slashes left to drop
  have hslash : (((Percent.decode inner).dropWhile (· == '/')).dropWhile (· == '/')) =
      (Percent.decode inner).dropWhile (· == '/') :=
    dropWhile_eq_self_iff.mpr (head?_dropWhile_ne '/' _)
  rw [hname, Zip.Archive.name_of_member? hmember, hslash]

private theorem LeadsTo.mem (h : LeadsTo tools zips u path a m) : m ∈ a.members := by
  obtain ⟨name, -, hmember⟩ := Option.bind_eq_some_iff.mp h.member_eq
  exact List.mem_reverse.mp (List.mem_of_find?_eq_some hmember)

private theorem LeadsTo.finds (h : LeadsTo tools zips u path a m) :
    Finds (Zip.opener tools zips) u (a.entry m) :=
  ⟨path, a.handle, h.path_eq, h.opener_eq, h.findEntry_eq⟩

/-- A directory is found by an inner path that ends in a slash, or in an escaped one. -/
theorem LeadsTo.isDirectory?_eq_some_true_iff (h : LeadsTo tools zips u path a m) :
    m.isDirectory? = some true ↔
      m.name ≠ [] ∧ ∃ inner, u.inner? = some inner ∧ Percent.EndsInSlash inner := by
  obtain ⟨inner, hinner, hname⟩ := Option.map_eq_some_iff.mp h.entryName?_eq
  have hinner' : u.inner? = some inner := hinner
  simp only [Zip.Member.isDirectory?_eq_some_true_iff, hinner', Option.some_inj, exists_eq_left',
    ← Percent.getLast?_decode_iff, ← hname]
  exact getLast?_dropWhile_iff

/-- A directory is not extracted: there is no extension behind the last slash of its name. -/
theorem LeadsTo.value_extract_of_isDirectory (h : LeadsTo tools zips u path a m)
    (hm : m.isDirectory? = some true) (d : Directory) (tokens : List Text) :
    (extract (Zip.opener tools zips) u d tokens).value =
      ⟨.error (.archive ⟨.noExtension m.name path, some path, some u⟩), d, tokens⟩ := by
  obtain ⟨front, hname⟩ :=
    List.getLast?_eq_some_iff.mp (Zip.Member.isDirectory?_eq_some_true_iff.mp hm)
  have hdot : '.' ∉ afterLast '/' m.name := by
    rw [hname, afterLast_append_cons List.not_mem_nil]
    exact List.not_mem_nil
  exact extract_of_failsEarly (.naming h.path_eq h.opener_eq h.findEntry_eq hdot) d tokens

/-- **Directories.** What reading or extracting gets past the lookup for is a member of the archive,
by the whole name. It is a directory if and only if the name is not empty and the inner path ends in
a slash, or in an escaped one, and then it is not extracted. -/
theorem isDirectory_of_pastLookup_iff (hpath : u.archivePath = .ok path)
    (ha : (Zip.openArchive tools zips path : Except (Failure table) Zip.Archive) = .ok a)
    (hpast : (∃ encoding, PastLookup (readText codecs (Zip.opener tools zips) u encoding).value) ∨
      ∃ d tokens, PastLookup (extract (Zip.opener tools zips) u d tokens).value.result) :
    ∃ m ∈ a.members, LeadsTo tools zips u path a m ∧ u.entryName? = some m.name ∧
      (m.isDirectory? = some true ↔
        m.name ≠ [] ∧ ∃ inner, u.inner? = some inner ∧ Percent.EndsInSlash inner) ∧
      (m.isDirectory? = some true → ∀ d tokens, (extract (Zip.opener tools zips) u d tokens).value =
        ⟨.error (.archive ⟨.noExtension m.name path, some path, some u⟩), d, tokens⟩) := by
  have hopen := Zip.opener_eq_ok_iff.mpr ⟨a, ha, rfl⟩
  obtain ⟨entry, hfind⟩ := exists_findEntry_of_pastLookup hpath hopen hpast
  obtain ⟨m, hmember⟩ := member_of_findEntry hfind
  have hleads : LeadsTo tools zips u path a m := ⟨hpath, ha, hmember⟩
  exact ⟨m, hleads.mem, hleads, hleads.entryName?_eq, hleads.isDirectory?_eq_some_true_iff,
    hleads.value_extract_of_isDirectory⟩

/-- The reference has slashes before the name, one in it that is escaped, and a flag. -/
theorem isDirectory_of_pastLookup_single : ∃ (u : Reference .standard) (m : Zip.Member),
    Reference.parse .standard "kls:file:///l.jar!///com%2Ft.kt?source=true".toList = .ok u ∧
      m ∈ (Zip.singleArchive "com/t.kt".toList).members ∧
      LeadsTo .none (Zip.singleFiles "com/t.kt".toList) u "/l.jar".toList
        (Zip.singleArchive "com/t.kt".toList) m ∧
      PastLookup (readText Codecs.builtIn (Zip.opener .none (Zip.singleFiles "com/t.kt".toList)) u
        "latin-1").value ∧
      m.isDirectory? ≠ some true := by
  have harchive : (Zip.openArchive .none (Zip.singleFiles "com/t.kt".toList) "/l.jar".toList :
      Except (Failure .standard) Zip.Archive) = .ok (Zip.singleArchive "com/t.kt".toList) :=
    Zip.openArchive_singleFiles (by decide +kernel)
  obtain ⟨u, hu, hleads⟩ : ∃ u : Reference .standard,
      Reference.parse .standard "kls:file:///l.jar!///com%2Ft.kt?source=true".toList = .ok u ∧
        LeadsTo .none (Zip.singleFiles "com/t.kt".toList) u "/l.jar".toList
          (Zip.singleArchive "com/t.kt".toList) (Zip.singleMember "com/t.kt".toList) :=
    ⟨_, rfl, rfl, harchive, by decide +kernel⟩
  have hmember : (Zip.singleArchive "com/t.kt".toList).readMember
      (Zip.singleMember "com/t.kt".toList) = .ok [0x68, 0x69] := by
    decide +kernel
  have hread := (hleads.value_readText_latin1 Codecs.builtIn).mpr ⟨_, hmember, rfl⟩
  have hpast : PastLookup
      (readText Codecs.builtIn (Zip.opener .none (Zip.singleFiles "com/t.kt".toList)) u
        "latin-1").value := by
    intro e he
    rw [hread] at he
    cases he
  obtain ⟨m, hmem, hleads', -, hdirectory, -⟩ :=
    isDirectory_of_pastLookup_iff hleads.path_eq harchive (.inl ⟨_, hpast⟩)
  refine ⟨u, m, hu, hmem, hleads', hpast, fun hm => ?_⟩
  obtain ⟨-, inner, hinner, hends⟩ := hdirectory.mp hm
  obtain rfl := Except.ok.inj hu
  obtain rfl : "///com%2Ft.kt".toList = inner := Option.some_inj.mp hinner
  exact absurd hends (by decide)

/-- **A directory can be read.** The name that is asked for ends in a slash, as the directory's
does, and the data of the directory come back as text. -/
theorem directory_can_be_read : ∃ m : Zip.Member,
    Reference.parse .standard "kls:file:///l.jar!/com/".toList =
        .ok (.ofSpecific .standard "file:///l.jar!/com/".toList) ∧
      LeadsTo .none (Zip.singleFiles "com/".toList)
        (.ofSpecific .standard "file:///l.jar!/com/".toList) "/l.jar".toList
        (Zip.singleArchive "com/".toList) m ∧
      m.isDirectory? = some true ∧
      (readText Codecs.builtIn (Zip.opener .none (Zip.singleFiles "com/".toList))
        (.ofSpecific .standard "file:///l.jar!/com/".toList) none).value = .ok "hi" := by
  have harchive : (Zip.openArchive .none (Zip.singleFiles "com/".toList) "/l.jar".toList :
      Except (Failure .standard) Zip.Archive) = .ok (Zip.singleArchive "com/".toList) :=
    Zip.openArchive_singleFiles (by decide +kernel)
  have hleads : LeadsTo .none (Zip.singleFiles "com/".toList)
      (.ofSpecific .standard "file:///l.jar!/com/".toList) "/l.jar".toList
      (Zip.singleArchive "com/".toList) (Zip.singleMember "com/".toList) :=
    ⟨rfl, harchive, by decide +kernel⟩
  have hmember : (Zip.singleArchive "com/".toList).readMember
      (Zip.singleMember "com/".toList) = .ok [0x68, 0x69] := by
    decide +kernel
  have hdata : ((Zip.singleArchive "com/".toList).entry (Zip.singleMember "com/".toList) :
      Entry .standard).readAll = .ok [0x68, 0x69] := by
    simp only [Zip.Archive.entry, hmember]
    rfl
  obtain ⟨path, hread⟩ := hleads.finds.exists_value_readText hdata none
  have hencoding : encodingFor none = defaultEncoding := rfl
  have hdecode : Utf8.decode [0x68, 0x69] = .ok ['h', 'i'] := by decide
  refine ⟨_, rfl, hleads, by decide +kernel, ?_⟩
  rw [hread, hencoding, textOf_default, hdecode]
  rfl

end EntryRef
