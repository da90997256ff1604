import EntryRef.Proofs.Reference.Extension
import EntryRef.Proofs.Reference.Parts
import EntryRef.Proofs.Reference.Survival

/-!
# Laws of renaming

`Reference.withExtension` writes an extension, and `Reference.extension?` reads one. They do not cut
at the same place: a new extension stands behind the first dot of the name, while the one that is
read stands behind the last. So the extension that is read back may be only the end of the one that
was written, and writing the extension that was read shortens a name with several dots.

The stem of a locator does not have this trouble. It is the same for all extensions that are written
behind it (`Locator.stem_append_dot`), so that the last one counts.

Main statement: `Reference.withExtension_laws`.
-/

namespace EntryRef

open Text

namespace Locator

variable {loc ext : Text}

/-! ### A stem and an extension -/

private theorem stem_append_dot_eq (loc ext : Text) : stem loc ++ '.' :: ext =
    throughLast '/' loc ++ (before '.' (fileName loc) ++ '.' :: ext) :=
  List.append_assoc _ _ _

/-- Neither the name before the first dot nor the extension has a slash. -/
private theorem slash_not_mem_renamed (h : '/' ∉ ext) :
    '/' ∉ before '.' (fileName loc) ++ '.' :: ext := by
  rw [List.mem_append, List.mem_cons, not_or, not_or]
  exact ⟨fun hm => not_mem_afterLast '/' loc (before_subset '.' _ hm), by decide, h⟩

private theorem throughLast_stem_append_dot (h : '/' ∉ ext) :
    throughLast '/' (stem loc ++ '.' :: ext) = throughLast '/' loc := by
  rw [stem_append_dot_eq, throughLast_throughLast_append (slash_not_mem_renamed h)]

private theorem fileName_stem_append_dot (h : '/' ∉ ext) :
    fileName (stem loc ++ '.' :: ext) = before '.' (fileName loc) ++ '.' :: ext := by
  rw [stem_append_dot_eq, fileName, afterLast_throughLast_append (slash_not_mem_renamed h)]

/-- A stem is that of every locator with an extension behind it. -/
theorem stem_append_dot (h : '/' ∉ ext) : stem (stem loc ++ '.' :: ext) = stem loc := by
  rw [stem, throughLast_stem_append_dot h, fileName_stem_append_dot h,
    before_append_cons (not_mem_before '.' _), ← stem]

/-- What is read is the end of the extension behind its last dot. -/
theorem extension?_stem_append_dot (h : '/' ∉ ext) :
    extension? (fileName (stem loc ++ '.' :: ext)) = some (afterLast '.' ext) := by
  rw [fileName_stem_append_dot h, extension?_eq_some_iff, afterLast_append List.mem_cons_self,
    afterLast_cons_self]
  exact ⟨List.mem_append_right _ List.mem_cons_self, rfl⟩

/-- The stem with the extension that is read makes the locator if the name has one dot. -/
theorem stem_append_extension_iff (h : extension? (fileName loc) = some ext) :
    stem loc ++ '.' :: ext = loc ↔ (fileName loc).count '.' = 1 := by
  obtain ⟨hdot, rfl⟩ := extension?_eq_some_iff.mp h
  have hsplit : throughLast '/' loc ++ fileName loc = loc := throughLast_append_afterLast '/' loc
  rw [← before_append_afterLast_iff hdot, stem_append_dot_eq]
  conv_lhs => rhs; rw [← hsplit]
  rw [List.append_cancel_left_eq]

end Locator

namespace Reference

open Locator (stem)

variable {table : FlagTable} {u v : Reference table}

/-! ### References with another extension -/

private theorem withBase_eq_ok_iff {base : Text} :
    u.withBase base = .ok v ↔ v.base = base ∧ v.flags = u.flags := by
  rw [withBase, ofBase]
  split
  · next hquery =>
    refine iff_of_false (fun h => ?_) fun h => v.no_query (h.1 ▸ hquery)
    cases h
  · rw [Except.ok.injEq, Reference.ext_iff, eq_comm, eq_comm (a := u.flags)]

theorem withExtension_eq_ok_iff {ext : Text} : u.withExtension ext = .ok v ↔
    v.base = stem u.base ++ '.' :: ext.dropWhile (· == '.') ∧ v.flags = u.flags := by
  rw [withExtension_eq, withBase_eq_ok_iff]

/-- The last extension that is written counts. -/
theorem withExtension_of_withExtension {ext : Text} (hslash : '/' ∉ ext)
    (h : u.withExtension ext = .ok v) (other : Text) :
    v.withExtension other = u.withExtension other := by
  obtain ⟨hbase, hflags⟩ := withExtension_eq_ok_iff.mp h
  have hdropped : '/' ∉ ext.dropWhile (· == '.') :=
    fun hm => hslash ((List.dropWhile_sublist _).subset hm)
  rw [withExtension_eq, withExtension_eq, withBase, withBase, hbase, hflags,
    Locator.stem_append_dot hdropped]

/-- **Renaming.** Of two extensions that are written one after the other the second one counts. A
new extension without a slash changes neither a flag nor anything up to the last slash, and what is
read back of it, without its leading dots, is what stands behind its last dot. Writing the extension
that was read changes nothing if and only if the name of the file has just one dot. -/
theorem withExtension_laws (u : Reference table) {ext other : Text}
    (hslash : '/' ∉ ext) (hquery : '?' ∉ ext) (hother : '?' ∉ other) :
    (∃ v w, u.withExtension ext = .ok v ∧ v.withExtension other = .ok w ∧
      u.withExtension other = .ok w ∧ v.flags = u.flags ∧
      throughLast '/' v.base = throughLast '/' u.base ∧
      v.extension? = some (afterLast '.' (ext.dropWhile (· == '.')))) ∧
    ∀ own, u.extension? = some own →
      ∃ v, u.withExtension own = .ok v ∧ (v.same u ↔ u.fileName.count '.' = 1) := by
  refine ⟨?_, fun own hown => ?_⟩
  · obtain ⟨v, hv, hflags, hbase⟩ := u.exists_withExtension hquery
    obtain ⟨w, hw, -, -⟩ := u.exists_withExtension hother
    have hdropped : '/' ∉ ext.dropWhile (· == '.') :=
      fun hm => hslash ((List.dropWhile_sublist _).subset hm)
    refine ⟨v, w, hv, ?_, hw, hflags, ?_, ?_⟩
    · rw [withExtension_of_withExtension hslash hv, hw]
    · rw [hbase, Locator.throughLast_stem_append_dot hdropped]
    · rw [extension?, fileName, hbase, Locator.extension?_stem_append_dot hdropped]
  · obtain ⟨-, hread⟩ := Locator.extension?_eq_some_iff.mp hown
    have hsub : own ⊆ u.base :=
      hread ▸ List.Subset.trans (afterLast_subset '.' _) (afterLast_subset '/' u.base)
    have hquery : '?' ∉ own := fun hm => u.no_query (hsub hm)
    obtain ⟨v, hv, hflags, hbase⟩ := u.exists_withExtension hquery
    -- the extension has no dot that would be taken for a leading one
    have hdots : own.dropWhile (· == '.') = own := by
      rw [dropWhile_eq_self_iff]
      intro hhead
      have hdot : '.' ∈ own := List.mem_of_head? hhead
      exact not_mem_afterLast '.' u.fileName (hread ▸ hdot)
    refine ⟨v, hv, ?_⟩
    rw [same_iff, hflags, and_iff_left u.flags.same_self, hbase, hdots]
    exact Locator.stem_append_extension_iff hown

/-- A dotted extension is read back in part, and a name with two dots loses one part. -/
theorem withExtension_laws_dotted : ∃ u v w x : Reference .standard,
    u.toText = "kls:file:///lib/a.jar!/B.tar.gz?source=true".toList ∧
      u.withExtension "..kt.md".toList = .ok v ∧
      v.toText = "kls:file:///lib/a.jar!/B.kt.md?source=true".toList ∧
      v.extension? = some "md".toList ∧ v.withExtension "class".toList = .ok w ∧
      w.toText = "kls:file:///lib/a.jar!/B.class?source=true".toList ∧
      u.withExtension "class".toList = .ok w ∧ u.extension? = some "gz".toList ∧
      u.withExtension "gz".toList = .ok x ∧ ¬x.same u := by
  let u : Reference .standard :=
    ⟨"file:///lib/a.jar!/B.tar.gz".toList, ⟨[some (.truth true)], rfl⟩, by decide⟩
  have hdotted : '/' ∉ "..kt.md".toList ∧ '?' ∉ "..kt.md".toList := by decide
  have hclass : '?' ∉ "class".toList := by decide
  obtain ⟨⟨v, w, hv, hvw, hw, -, -, hextension⟩, hown⟩ :=
    u.withExtension_laws hdotted.1 hdotted.2 hclass
  obtain ⟨x, hx, hsame⟩ := hown "gz".toList (by decide)
  have htext : (u.withExtension "..kt.md".toList).map toText =
      .ok "kls:file:///lib/a.jar!/B.kt.md?source=true".toList := by rfl
  have htext' : (u.withExtension "class".toList).map toText =
      .ok "kls:file:///lib/a.jar!/B.class?source=true".toList := by rfl
  rw [hv] at htext
  rw [hw] at htext'
  exact ⟨u, v, w, x, rfl, hv, Except.ok.inj htext, hextension, hvw, Except.ok.inj htext', hw,
    by decide, hx, fun h => absurd (hsame.mp h) (by decide)⟩

end Reference

end EntryRef
