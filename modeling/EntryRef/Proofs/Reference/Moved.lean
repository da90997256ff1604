import EntryRef.Proofs.Reference.Change

/-!
# Another archive

With another archive, a reference has the file URI of the given path in front and its own inner path
behind. The path is given in glyphs. It is refused if it cannot be encoded, and what comes of any
other one is told by its bytes alone (`Reference.withArchiveAt_eq_ok_iff`): the inner path and the
flags stay, and the bytes are those of the new archive. A path in text is never refused
(`Reference.withArchiveAt_toRaw`).

The inner path stays when the archive changes, but no more than that: what stands behind a second
exclamation mark is lost, and the name of the file with it (`Reference.withArchivePath_frame`).
-/

namespace EntryRef

open Text
open Locator (plainDrive)

variable {table : FlagTable}

namespace Reference

variable {u v w : Reference table}

/-! ### Paths in glyphs -/

section Raw

variable {cwd p q : Path.Raw} {bs : Bytes}

private theorem behindArchive_of_none (h : u.inner? = none) : u.behindArchive = [] := by
  rw [behindArchive, h]
  rfl

/-- Behind the archive stand the mark and the inner part. -/
private theorem behindArchive_of_inner? {inner : Text} (h : u.inner? = some inner) :
    u.behindArchive = '!' :: inner := by
  rw [behindArchive, h]
  rfl

/-- No question mark comes into the locator with the new path. -/
private theorem question_not_mem_moved (u : Reference table) (bs : Bytes) :
    '?' ∉ Path.uriOfBytes bs ++ u.behindArchive := by
  rw [List.mem_append, not_or]
  refine ⟨Path.question_not_mem_uriOfBytes, ?_⟩
  cases hinner : u.inner? with
  | none =>
    rw [behindArchive_of_none hinner]
    exact List.not_mem_nil
  | some inner =>
    rw [behindArchive_of_inner? hinner, List.mem_cons, not_or]
    exact ⟨by decide, fun h => u.no_query (Locator.inner?_subset hinner h)⟩

/-- With another archive, a reference has the bytes of the path for it, and the same inner path and
flags. -/
theorem withArchiveAt_eq_ok_iff : u.withArchiveAt cwd p = .ok v ↔
    ∃ bs, p.bytes cwd = .ok bs ∧ v.base = Path.uriOfBytes bs ++ u.behindArchive ∧
      v.flags = u.flags := by
  cases hbytes : p.bytes cwd with
  | error why =>
    have hrefused : u.withArchiveAt cwd p = .error (.unencodable why) := by
      rw [withArchiveAt, Path.Raw.fileUri, hbytes]
      rfl
    rw [hrefused]
    constructor
    · intro h
      cases h
    · rintro ⟨bs, hbs, -⟩
      cases hbs
  | ok bs =>
    have haccepted : u.withArchiveAt cwd p =
        .ok ⟨Path.uriOfBytes bs ++ u.behindArchive, u.flags, u.question_not_mem_moved bs⟩ := by
      rw [withArchiveAt, Path.Raw.fileUri_of_bytes hbytes]
      exact dif_neg (u.question_not_mem_moved bs)
    rw [haccepted]
    constructor
    · rintro h
      rw [← Except.ok.inj h]
      exact ⟨bs, rfl, rfl, rfl⟩
    · rintro ⟨cs, hcs, hbase, hflags⟩
      rw [Except.ok.inj hcs]
      exact congrArg Except.ok (Reference.ext hbase.symm hflags.symm)

/-- A path is accepted if and only if it can be encoded. -/
theorem exists_withArchiveAt_iff : (∃ v, u.withArchiveAt cwd p = .ok v) ↔
    ∃ bs, p.bytes cwd = .ok bs := by
  constructor
  · rintro ⟨v, hv⟩
    obtain ⟨bs, hbytes, -⟩ := withArchiveAt_eq_ok_iff.mp hv
    exact ⟨bs, hbytes⟩
  · rintro ⟨bs, hbytes⟩
    exact ⟨⟨_, u.flags, u.question_not_mem_moved bs⟩,
      withArchiveAt_eq_ok_iff.mpr ⟨bs, hbytes, rfl, rfl⟩⟩

/-- Moving leaves the flags. -/
theorem flags_of_withArchiveAt (h : u.withArchiveAt cwd p = .ok v) : v.flags = u.flags := by
  obtain ⟨bs, -, -, hflags⟩ := withArchiveAt_eq_ok_iff.mp h
  exact hflags

/-- The bytes are all of the new archive. -/
theorem archive_eq_of_base (h : v.base = Path.uriOfBytes bs ++ u.behindArchive) :
    v.archive = Path.uriOfBytes bs := by
  rw [archive, h]
  cases hinner : u.inner? with
  | none =>
    rw [behindArchive_of_none hinner, List.append_nil]
    exact Locator.archive_eq_self Path.mark_not_mem_uriOfBytes
  | some inner =>
    rw [behindArchive_of_inner? hinner]
    exact Locator.archive_append_cons Path.mark_not_mem_uriOfBytes inner

/-- The inner part is read behind the mark, as the new path has none. -/
private theorem inner?_eq_of_base (h : v.base = Path.uriOfBytes bs ++ u.behindArchive) :
    v.inner? = u.inner? := by
  rw [inner?, h]
  cases hinner : u.inner? with
  | none =>
    rw [behindArchive_of_none hinner, List.append_nil]
    exact Locator.inner?_eq_none Path.mark_not_mem_uriOfBytes
  | some inner =>
    rw [behindArchive_of_inner? hinner, Locator.inner?_append_cons Path.mark_not_mem_uriOfBytes,
      before_eq_self (Locator.mark_not_mem_inner hinner)]

/-- Moving leaves the inner part. -/
theorem inner?_of_withArchiveAt (h : u.withArchiveAt cwd p = .ok v) : v.inner? = u.inner? := by
  obtain ⟨bs, -, hbase, -⟩ := withArchiveAt_eq_ok_iff.mp h
  exact inner?_eq_of_base hbase

/-- What can be read back can be read back after moving. -/
theorem Survives.of_withArchiveAt (hu : u.Survives) (h : u.withArchiveAt cwd p = .ok v) :
    v.Survives := by
  obtain ⟨bs, -, hbase, hflags⟩ := withArchiveAt_eq_ok_iff.mp h
  have hquery : '?' ∉ Path.uriOfBytes bs ++ u.behindArchive := hbase ▸ v.no_query
  obtain rfl : v = ⟨Path.uriOfBytes bs ++ u.behindArchive, u.flags, hquery⟩ :=
    Reference.ext hbase hflags
  exact hu.withBytes bs rfl hquery

/-- The path of the archive is the text of the bytes, but for the slash before a drive. -/
theorem archivePath_of_withArchiveAt (hcwd : (p.absolute cwd).isAbsolute)
    (hbytes : p.bytes cwd = .ok bs) (h : u.withArchiveAt cwd p = .ok v) :
    v.archivePath = .ok (plainDrive (Utf8.decodeLossy bs)) := by
  obtain ⟨cs, hcs, hbase, -⟩ := withArchiveAt_eq_ok_iff.mp h
  obtain rfl : bs = cs := Except.ok.inj (hbytes.symm.trans hcs)
  have harchive : Locator.archive v.base = Locator.archive (Path.uriOfBytes bs) := by
    rw [Locator.archive_eq_self Path.mark_not_mem_uriOfBytes]
    exact archive_eq_of_base hbase
  rw [archivePath, Locator.archivePath_congr harchive]
  exact (Path.Raw.leadsTo_of_bytes hcwd hbytes).archivePath_eq

/-- Two paths give the same reference only if they have the same bytes. -/
theorem same_of_withArchiveAt_iff (hv : u.withArchiveAt cwd p = .ok v)
    (hw : u.withArchiveAt cwd q = .ok w) : v.same w ↔ p.bytes cwd = q.bytes cwd := by
  obtain ⟨bs, hbs, hvbase, hvflags⟩ := withArchiveAt_eq_ok_iff.mp hv
  obtain ⟨cs, hcs, hwbase, hwflags⟩ := withArchiveAt_eq_ok_iff.mp hw
  rw [same_iff, hvbase, hwbase, List.append_cancel_right_eq, hvflags, hwflags, hbs, hcs,
    Except.ok.injEq, Path.uriOfBytes_injective.eq_iff]
  exact and_iff_left u.flags.same_self

end Raw

/-! ### Paths in text -/

section Text

variable {cwd p q : Path.Posix} {inner : Text}

/-- The locator of the copy is the uri of the path, and what stands behind the archive. -/
theorem base_withArchivePath :
    (u.withArchivePath cwd p).base = p.fileUri cwd ++ u.behindArchive := by
  change p.fileUri cwd ++ _ = _
  rw [behindArchive]
  cases u.inner? <;> rfl

/-- A path in text is accepted. -/
theorem withArchiveAt_toRaw (u : Reference table) (cwd p : Path.Posix) :
    u.withArchiveAt cwd p = .ok (u.withArchivePath cwd p) :=
  withArchiveAt_eq_ok_iff.mpr ⟨_, Path.Raw.bytes_toRaw p cwd, base_withArchivePath, rfl⟩

theorem base_withArchivePath_of_inner? (h : u.inner? = some inner) :
    (u.withArchivePath cwd p).base = p.fileUri cwd ++ '!' :: inner := by
  rw [base_withArchivePath, behindArchive_of_inner? h]

@[simp]
theorem flags_withArchivePath : (u.withArchivePath cwd p).flags = u.flags := rfl

@[simp]
theorem inner?_withArchivePath : (u.withArchivePath cwd p).inner? = u.inner? :=
  inner?_of_withArchiveAt (withArchiveAt_toRaw u cwd p)

/-- Moving leaves the entry. -/
@[simp]
theorem entryName?_withArchivePath : (u.withArchivePath cwd p).entryName? = u.entryName? := by
  have hinner : Locator.inner? (u.withArchivePath cwd p).base = Locator.inner? u.base :=
    inner?_withArchivePath
  rw [entryName?, entryName?, Locator.entryName?, hinner, Locator.entryName?]

private theorem fileName_withArchivePath (h : u.inner? = some inner) (hslash : '/' ∈ inner) :
    (u.withArchivePath cwd p).fileName = afterLast '/' inner := by
  rw [fileName, base_withArchivePath_of_inner? h, Locator.fileName_append_cons hslash]

end Text

end Reference

end EntryRef
