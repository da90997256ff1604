import EntryRef.Proofs.Text.Cutting
import EntryRef.Zip.Archive
import Mathlib.Data.List.Nodup

/-!
# Members that are listed and found

`Member.IsListed` says by its name whether a member is listed, and `Archive.files_eq_ok_iff` that
these members are the files of an archive. Where names differ, a member is found by its name, unless
the name starts with a slash: slashes at the start of what is looked up do not count, so that such a
member is not found by any name (`Archive.entry?_handle_eq_some_iff`).
-/

namespace EntryRef.Zip

open Text

variable {tools : Tools} {m : Member} {a : Archive}

/-! ### Listed members -/

/-- The member is no directory, no metadata of a packing program and no hidden file. -/
def Member.IsListed (m : Member) : Prop :=
  m.name.getLast? ≠ some '/' ∧ ¬"__MACOSX/".toList <+: m.name ∧
    (afterLast '/' m.name).head? ≠ some '.'

instance : DecidablePred Member.IsListed := fun m =>
  inferInstanceAs (Decidable (m.name.getLast? ≠ some '/' ∧ ¬"__MACOSX/".toList <+: m.name ∧
    (afterLast '/' m.name).head? ≠ some '.'))

private theorem Member.isListed_iff :
    m.IsListed ↔ (m.isDirectory? != some true && !m.isHidden) = true := by
  have hdirectory : m.isDirectory? ≠ some true ↔ m.name.getLast? ≠ some '/' := by
    rw [isDirectory?, Ne, Option.map_eq_some_iff, not_iff_not]
    constructor
    · rintro ⟨c, hc, heq⟩
      rwa [beq_iff_eq.mp heq] at hc
    · intro h
      exact ⟨'/', h, rfl⟩
  have hhidden : m.isHidden = false ↔
      ¬"__MACOSX/".toList <+: m.name ∧ (afterLast '/' m.name).head? ≠ some '.' := by
    rw [isHidden, Bool.or_eq_false_iff, Bool.eq_false_iff, Ne, List.isPrefixOf_iff_prefix,
      beq_eq_false_iff_ne]
  rw [IsListed, Bool.and_eq_true, bne_iff_ne, hdirectory, Bool.not_eq_true', hhidden]

/-- The files of an archive are its listed members, in order; they are told if no name is empty. -/
theorem Archive.files_eq_ok_iff {ms : List Member} : a.files = .ok ms ↔
    (∀ m ∈ a.members, m.name ≠ []) ∧ ms = a.members.filter fun m => m.IsListed := by
  have hempty : (a.members.any fun m => m.isDirectory?.isNone) = false ↔
      ∀ m ∈ a.members, m.name ≠ [] := by
    rw [List.any_eq_false]
    refine forall₂_congr fun m _ => ?_
    rw [Member.isDirectory?, Option.isNone_map, Option.isNone_iff_eq_none,
      List.getLast?_eq_none_iff]
  have hfilter : (a.members.filter fun m => m.isDirectory? != some true && !m.isHidden) =
      a.members.filter fun m => m.IsListed := by
    refine List.filter_congr fun m _ => ?_
    rw [Bool.eq_iff_iff, decide_eq_true_iff, Member.isListed_iff]
  rw [files, ← hempty]
  split
  · next h => exact iff_of_false (by simp) fun hne => by simp [hne.1] at h
  · next h =>
    rw [Bool.not_eq_true] at h
    rw [and_iff_right h, Except.ok.injEq, hfilter, eq_comm]

variable {table : FlagTable}

/-- The entries of an archive are those of its files. -/
theorem Archive.entries_handle_eq_ok_iff {entries : List (Entry table)} :
    (a.handle : Handle table).entries = .ok entries ↔ ∃ ms, a.files = .ok ms ∧
      entries = ms.map a.entry := by
  simp only [handle]
  cases a.files with
  | error why => simp
  | ok ms => simp [eq_comm]

theorem opener_eq_ok_iff {files : Files} {path : Text} {h : Handle table} :
    opener tools files path = .ok h ↔
      ∃ a, (openArchive tools files path : Except (Failure table) Archive) = .ok a ∧
        h = a.handle := by
  rw [opener]
  cases (openArchive tools files path : Except (Failure table) Archive) with
  | error e => simp [Except.map]
  | ok a => simp [Except.map, eq_comm]

/-- What an archive in a file is not opened for is a trouble. -/
theorem exists_openTrouble {files : Files} {path : Text} {e : Failure table}
    (h : (opener tools files path : Except (Failure table) (Handle table)) = .error e) :
    ∃ why, e = openTrouble path why := by
  rw [opener, openArchive] at h
  split at h
  · next why _ => exact ⟨why, (Except.error.inj h).symm⟩
  split at h
  · next fault _ => exact ⟨fault.trouble, (Except.error.inj h).symm⟩
  · cases h

/-! ### Members by their names -/

namespace Archive

theorem name_of_member? {name : Text} (h : a.member? name = some m) :
    m.name = name.dropWhile (· == '/') := by
  simpa using List.find?_some h

/-- Where names differ, a member is found by its name, unless that starts with a slash. -/
theorem member?_eq_some (hnames : (a.members.map Member.name).Nodup) (hm : m ∈ a.members)
    (h : m.name.head? ≠ some '/') : a.member? m.name = some m := by
  have hmem : m ∈ a.members.reverse := List.mem_reverse.mpr hm
  rw [member?, dropWhile_eq_self_iff.mpr h]
  -- of several members of a name the last one would be found
  cases hfind : a.members.reverse.find? fun x => x.name = m.name with
  | none =>
    rw [List.find?_eq_none] at hfind
    exact absurd (decide_eq_true rfl) (hfind m hmem)
  | some x =>
    have hx : x ∈ a.members := List.mem_reverse.mp (List.mem_of_find?_eq_some hfind)
    have hname : x.name = m.name := by simpa using List.find?_some hfind
    rw [List.inj_on_of_nodup_map hnames hx hm hname]

/-- No member is found whose name starts with a slash. -/
theorem head?_name_of_member? {name : Text} (h : a.member? name = some m) :
    m.name.head? ≠ some '/' := by
  rw [name_of_member? h]
  exact head?_dropWhile_ne '/' name

/-- Where names differ, the entry of a member is the one that is found by the member's name without
leading slashes if and only if there are none. -/
theorem entry?_handle_eq_some_iff (hnames : (a.members.map Member.name).Nodup)
    (hm : m ∈ a.members) :
    Handle.entry? (a.handle : Handle table) (m.name.dropWhile (· == '/')) = some (a.entry m) ↔
      m.name.head? ≠ some '/' := by
  constructor
  · intro h
    obtain ⟨x, hx, hentry⟩ := Option.map_eq_some_iff.mp h
    have hname : x.name = m.name := congrArg Entry.name hentry
    rw [← hname]
    exact head?_name_of_member? hx
  · intro h
    rw [dropWhile_eq_self_iff.mpr h]
    exact Option.map_eq_some_iff.mpr ⟨m, member?_eq_some hnames hm h, rfl⟩

end Archive

/-! ### Archives of one member -/

/-- The file of an archive of one member, of which the data are two letters. -/
def single (name : Text) : Bytes :=
  let stored := Utf8.encode name
  let length := UInt8.ofNat stored.length
  let fields : Bytes :=
    [0, 8, 0, 0, 0, 0, 0, 0, 0xac, 0x2a, 0x93, 0xd8, 2, 0, 0, 0, 2, 0, 0, 0, length, 0]
  [0x50, 0x4b, 3, 4, 20, 0] ++ fields ++ [0, 0] ++ stored ++ [0x68, 0x69] ++
    [0x50, 0x4b, 1, 2, 20, 0, 20, 0] ++ fields ++ List.replicate 16 0 ++ stored ++
    [0x50, 0x4b, 5, 6, 0, 0, 0, 0, 1, 0, 1, 0, 46 + length, 0, 0, 0, 32 + length, 0, 0, 0, 0, 0]

/-- The member of that archive. -/
def singleMember (name : Text) : Member :=
  ⟨name, utf8Flag, storeMethod, 0xd8932aac, 2, 2, 0, 0, 32 + (Utf8.encode name).length⟩

/-- That archive at the path `/l.jar`, where it is the only file. -/
def singleArchive (name : Text) : Archive :=
  ⟨"/l.jar".toList, single name, [singleMember name], false, .none⟩

/-- The only file. -/
def singleFiles (name : Text) : Files := [("/l.jar".toList, .ok (single name))]

/-- The archive is opened if its directory is read as it should be. -/
theorem openArchive_singleFiles {name : Text}
    (h : readDirectory (single name) = .ok [singleMember name]) :
    (openArchive .none (singleFiles name) "/l.jar".toList : Except (Failure table) Archive) =
      .ok (singleArchive name) := by
  have hfile : readFile (singleFiles name) "/l.jar".toList = .ok (single name) := rfl
  simp only [openArchive, hfile, Archive.ofFile, h]
  rfl

end EntryRef.Zip
