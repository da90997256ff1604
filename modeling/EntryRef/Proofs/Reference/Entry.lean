import EntryRef.Proofs.Locator
import EntryRef.Proofs.Reference.RoundTrip
import EntryRef.Reference.Change

/-!
# References to entries

`Reference.withEntry` writes the name of an entry behind the archive of a reference. The name is
encoded, so that it has no exclamation mark, no question mark and no number sign, and the locator is
cut again where it was put together. The name comes back without its leading slashes, which separate
it from the exclamation mark and cannot be told from those of the name.

The new reference has the archive and the flags of the old one, and is sound if the old one is. The
name of its file and the extension are those of the entry, encoded, since encoding commutes with
cutting at slashes and dots.
-/

namespace EntryRef.Reference

open Text
open Identifier (Clean)

variable {table : FlagTable} (u : Reference table) (name : Text)

/-! ### Encoded names -/

/-- The name of an entry is read back with the slash in front of it. -/
private theorem decode_slash_encode :
    Percent.decode ('/' :: Percent.encode plainInEntry name) = '/' :: name :=
  Percent.decode_append_encode (by decide) (p := ['/']) (by decide) name

theorem percent_not_plain : '%' ∉ plainInEntry := by decide

private theorem separator_slash : Percent.Separator plainInEntry '/' :=
  ⟨by decide, by decide, by decide⟩

theorem separator_dot : Percent.Separator plainInEntry '.' :=
  ⟨by decide, by decide, by decide⟩

/-! ### Parts -/

/-- Naming an entry leaves the archive. -/
@[simp]
theorem archive_withEntry : (u.withEntry name).archive = u.archive :=
  before_append_cons (not_mem_before '!' u.base) _

@[simp]
theorem flags_withEntry : (u.withEntry name).flags = u.flags := rfl

@[simp]
theorem archivePath_withEntry : (u.withEntry name).archivePath = u.archivePath :=
  Locator.archivePath_congr (archive_withEntry u name)

/-- The inner part is a slash and the encoded name. -/
private theorem inner?_withEntry :
    (u.withEntry name).inner? = some ('/' :: Percent.encode plainInEntry name) := by
  have hafter : after? '!' (u.withEntry name).base =
      some ('/' :: Percent.encode plainInEntry name) :=
    after?_append_cons (not_mem_before '!' u.base) _
  have hinner : '!' ∉ '/' :: Percent.encode plainInEntry name := by
    rw [List.mem_cons, not_or]
    exact ⟨by decide, Percent.not_mem_encode (by decide)⟩
  rw [inner?, Locator.inner?, hafter, Option.map_some, before_eq_self hinner]

/-- The name of an entry comes back from a reference to it, but for its leading slashes. -/
@[simp]
theorem entryName?_withEntry :
    (u.withEntry name).entryName? = some (name.dropWhile (· == '/')) := by
  have hinner : Locator.inner? (u.withEntry name).base =
      some ('/' :: Percent.encode plainInEntry name) := inner?_withEntry u name
  rw [entryName?, Locator.entryName?, hinner, Option.map_some, decode_slash_encode,
    List.dropWhile_cons_of_pos rfl]

/-- The file is called what stands behind the last slash of the name, encoded. -/
theorem fileName_withEntry :
    (u.withEntry name).fileName = Percent.encode plainInEntry (afterLast '/' name) := by
  have hbase : (u.withEntry name).fileName =
      afterLast '/' ('/' :: Percent.encode plainInEntry name) :=
    Locator.fileName_append_cons List.mem_cons_self
  rw [hbase, afterLast_cons_self, separator_slash.afterLast_encode percent_not_plain]

/-- The extension is that of the last segment of the name, encoded. -/
theorem extension?_withEntry : (u.withEntry name).extension? =
    (Locator.extension? (afterLast '/' name)).map (Percent.encode plainInEntry) := by
  have hdot : '.' ∈ Percent.encode plainInEntry (afterLast '/' name) ↔
      '.' ∈ afterLast '/' name :=
    separator_dot.mem_encode_iff percent_not_plain
  rw [extension?, fileName_withEntry, Locator.extension?, Locator.extension?,
    separator_dot.afterLast_encode percent_not_plain]
  simp only [List.contains_iff_mem, hdot]
  split
  · rfl
  · rfl

/-- A class is one by its name, since encoding keeps texts apart. -/
theorem isCompiled_withEntry : (u.withEntry name).isCompiled ↔
    Locator.extension? (afterLast '/' name) = some "class".toList := by
  have hclass : (some "class".toList).map (Percent.encode plainInEntry) =
      some "class".toList := by decide
  have hinj := Option.map_injective (Percent.encode_injective percent_not_plain)
  have hiff := hinj.eq_iff (a := Locator.extension? (afterLast '/' name))
    (b := some "class".toList)
  rw [isCompiled, beq_iff_eq, extension?_withEntry, ← hiff, hclass]

/-- Entries of one archive do not depend on each other. -/
@[simp]
theorem withEntry_withEntry (other : Text) :
    (u.withEntry name).withEntry other = u.withEntry other := by
  ext1
  · change (u.withEntry name).archive ++ _ = u.archive ++ _
    rw [archive_withEntry]
  · rfl

/-! ### Soundness -/

variable {u}

/-- A sound reference stays sound, whatever the name of the entry. -/
theorem Sound.withEntry (hu : u.Sound) : (u.withEntry name).Sound where
  clean := by
    have harchive : Clean u.archive := hu.clean.before (by decide)
    have hmarks : Clean ['!', '/'] := Clean.of_all (by decide) (by decide)
    have hname : Clean (Percent.encode plainInEntry name) :=
      Identifier.clean_encode (by decide) (Identifier.legal_of_all (by decide)) name
    exact harchive.append (hmarks.append hname)
  no_fragment hm := by
    rcases List.mem_append.mp hm with hm | hm
    · exact hu.no_fragment (before_subset '!' u.base hm)
    · simp only [List.mem_cons] at hm
      rcases hm with hm | hm | hm
      · exact absurd hm (by decide)
      · exact absurd hm (by decide)
      · exact Percent.not_mem_encode (by decide) hm
  kept := hu.kept

/-- A reference to an entry is read back from its text. -/
theorem Sound.parse_toText_withEntry (hu : u.Sound) (ht : table.Lawful) :
    parse table (u.withEntry name).toText = .ok (u.withEntry name) := by
  refine (hu.withEntry name).parse_toText ht fun h => ?_
  exact List.append_ne_nil_of_right_ne_nil _ (List.cons_ne_nil _ _) h.1

end EntryRef.Reference
