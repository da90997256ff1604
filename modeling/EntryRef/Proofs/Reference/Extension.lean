import EntryRef.Proofs.Locator
import EntryRef.Reference.Change

/-!
# Another extension

`Reference.withExtension` keeps the `Locator.stem` of a locator, which ends where the extension of
the file starts: at the first dot behind the last slash. Neither cut looks for the exclamation mark
that ends the archive. If that mark is in the stem, the archive stays as it is, since nothing before
the mark has changed. If it is not, it stands behind the first dot of the last segment, as in
`lib.jar!B.class`, and is replaced together with the extension: what is left is a plain file.

`Reference.archive_withExtension` says that there is no third case.
-/

namespace EntryRef

open Text

namespace Locator

variable {loc : Text}

/-- What stands before the extension of a file. -/
def stem (loc : Text) : Text := throughLast '/' loc ++ before '.' (fileName loc)

theorem stem_prefix (loc : Text) : stem loc <+: loc := by
  have hname : before '.' (fileName loc) <+: fileName loc := List.takeWhile_prefix _
  obtain ⟨r, hr⟩ := hname
  refine ⟨r, ?_⟩
  rw [stem, List.append_assoc, hr]
  exact throughLast_append_afterLast '/' loc

private theorem mark_mem_stem_iff :
    '!' ∈ stem loc ↔ '!' ∈ throughLast '/' loc ∨ '!' ∈ before '.' (fileName loc) :=
  List.mem_append

/-- What follows a text with an exclamation mark does not matter for the archive. -/
theorem archive_append {s : Text} (h : '!' ∈ s) (r : Text) : archive (s ++ r) = archive s := by
  obtain ⟨uri, t, rfl, huri⟩ := List.eq_append_cons_of_mem h
  rw [List.append_assoc, List.cons_append, archive_append_cons huri, archive_append_cons huri]

private theorem inner?_ne_none_iff : inner? loc ≠ none ↔ '!' ∈ loc := by
  constructor
  · intro h
    by_contra hmark
    exact h (inner?_eq_none hmark)
  · intro h
    obtain ⟨uri, t, rfl, huri⟩ := List.eq_append_cons_of_mem h
    rw [inner?_append_cons huri]
    exact Option.some_ne_none _

/-- The archive of a locator is that of its stem, if the exclamation mark is in it. -/
theorem archive_stem (h : '!' ∈ stem loc) : archive (stem loc) = archive loc := by
  obtain ⟨r, hr⟩ := stem_prefix loc
  rw [← archive_append h r, hr]

end Locator

namespace Reference

open Locator (stem)

variable {table : FlagTable}

/-- The stem stays, and the new extension stands behind it without its leading dots. -/
theorem withExtension_eq (u : Reference table) (ext : Text) :
    u.withExtension ext = u.withBase (stem u.base ++ '.' :: ext.dropWhile (· == '.')) := by
  rw [withExtension, renamed, stem, List.append_assoc]
  rfl

/-- An extension without a question mark is always taken. -/
theorem exists_withExtension (u : Reference table) {ext : Text} (hquery : '?' ∉ ext) :
    ∃ v, u.withExtension ext = .ok v ∧ v.flags = u.flags ∧
      v.base = stem u.base ++ '.' :: ext.dropWhile (· == '.') := by
  have hbase : '?' ∉ stem u.base ++ '.' :: ext.dropWhile (· == '.') := by
    rw [List.mem_append, List.mem_cons]
    rintro (h | h | h)
    · exact u.no_query ((Locator.stem_prefix u.base).subset h)
    · exact absurd h (by decide)
    · exact hquery ((List.dropWhile_sublist _).subset h)
  refine ⟨⟨_, u.flags, hbase⟩, ?_, rfl, rfl⟩
  rw [withExtension_eq, withBase, ofBase, dif_neg hbase]

/-- **Archives.** A new extension without an exclamation mark changes no flag. An entry is still
named afterwards if and only if an exclamation mark stands before the last slash, or before the
first dot of the name behind it, and then the archive is the same. -/
theorem archive_withExtension (u : Reference table) {ext : Text} (hmark : '!' ∉ ext)
    (hquery : '?' ∉ ext) : ∃ v, u.withExtension ext = .ok v ∧ v.flags = u.flags ∧
      (v.inner? ≠ none ↔ '!' ∈ throughLast '/' u.base ∨ '!' ∈ before '.' u.fileName) ∧
      (v.inner? ≠ none → v.archive = u.archive ∧ v.archivePath = u.archivePath) := by
  obtain ⟨v, hv, hflags, hbase⟩ := u.exists_withExtension hquery
  have hrest : '!' ∉ '.' :: ext.dropWhile (· == '.') := by
    rw [List.mem_cons]
    rintro (h | h)
    · exact absurd h (by decide)
    · exact hmark ((List.dropWhile_sublist _).subset h)
  have hinner : v.inner? ≠ none ↔ '!' ∈ stem u.base := by
    rw [inner?, Locator.inner?_ne_none_iff, hbase, List.mem_append]
    exact or_iff_left hrest
  refine ⟨v, hv, hflags, hinner.trans Locator.mark_mem_stem_iff, fun h => ?_⟩
  have hstem : '!' ∈ stem u.base := hinner.mp h
  have harchive : Locator.archive v.base = Locator.archive u.base := by
    rw [hbase, Locator.archive_append hstem, Locator.archive_stem hstem]
  exact ⟨harchive, Locator.archivePath_congr harchive⟩

/-- Without any slash, the mark may stand before the first dot. -/
theorem archive_withExtension_bare : ∃ u v : Reference .standard,
    u.toText = "kls:lib!B.x!C.class?source=true".toList ∧
      '!' ∉ ".kt".toList ∧ '?' ∉ ".kt".toList ∧ u.withExtension ".kt".toList = .ok v ∧
      v.toText = "kls:lib!B.kt?source=true".toList ∧ v.inner? ≠ none ∧
      v.archive = "lib".toList ∧ v.archivePath = u.archivePath := by
  let u : Reference .standard :=
    ⟨"lib!B.x!C.class".toList, ⟨[some (.truth true)], rfl⟩, by decide⟩
  have hmark : '!' ∉ ".kt".toList := by decide
  have hquery : '?' ∉ ".kt".toList := by decide
  obtain ⟨v, hv, -, hinner, hsame⟩ := u.archive_withExtension hmark hquery
  have hkept : v.inner? ≠ none := hinner.mpr (.inr (by decide))
  have htext : (u.withExtension ".kt".toList).map toText =
      .ok "kls:lib!B.kt?source=true".toList := by rfl
  rw [hv] at htext
  exact ⟨u, v, rfl, hmark, hquery, hv, Except.ok.inj htext, hkept, (hsame hkept).1,
    (hsame hkept).2⟩

/-- An entry at the root of an archive, named without a slash, takes the end of the archive's name
with it. -/
theorem archive_withExtension_lost : ∃ u v : Reference .standard,
    u.toText = "kls:file:///repo/lib.jar!B.class".toList ∧ u.inner? = some "B.class".toList ∧
      u.archivePath = .ok "/repo/lib.jar".toList ∧ u.withExtension "kt".toList = .ok v ∧
      v.toText = "kls:file:///repo/lib.kt".toList ∧ v.inner? = none ∧
      v.archivePath = .ok "/repo/lib.kt".toList :=
  ⟨⟨"file:///repo/lib.jar!B.class".toList, .none _, by decide⟩,
    ⟨"file:///repo/lib.kt".toList, .none _, by decide⟩, rfl, by decide, rfl, rfl, rfl, by decide,
    rfl⟩

end Reference

end EntryRef
