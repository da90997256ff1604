import EntryRef.Proofs.Path.FileUri
import EntryRef.Proofs.Reference.Survival
import EntryRef.Reference.Change

/-!
# Changed references survive

A reference that survives being written is changed into one that survives too, as long as its
locator is not empty, with one exception: `Reference.withExtension` takes the new extension as it
is. A question mark in it is refused, but a number sign is not, nor is a character that has to be
escaped, nor a percent sign that starts no escape. `Reference.survives_withExtension_iff` has the
exact condition on the extension. The path of another archive needs none, since it is encoded.

`Reference.survives_changed` puts the changes together.
-/

namespace EntryRef

open Text
open Identifier (Clean)

variable {table : FlagTable}

/-! ### Flags -/

namespace Flags

private theorem kept_none (table : FlagTable) : (none table).Kept := by
  intro p hp v hv
  cases (snd_eq_none_of_mem_pairs_none hp).symm.trans hv

/-- The source flag takes nothing but truth values. -/
theorem accept_source {given : Given} {w : Option FlagValue}
    (h : accept Flag.source given = .ok w) {x : FlagValue} (hx : w = some x) :
    ∃ b, x = .truth b := by
  subst hx
  cases given <;> cases h <;> exact ⟨_, rfl⟩

private theorem kept_of_set {q r : Flags .standard} {name : Text} {given : Given}
    (h : q.set name given = .ok r) : r.Kept := by
  obtain ⟨w, hw, rfl⟩ : ∃ w, accept Flag.source given = .ok w ∧ q.put 0 w = r := by
    by_cases hname : Flag.source.name = name
    · have hset : q.set name given = (accept Flag.source given).map (q.put 0) := by
        simp [set, index?, FlagTable.standard, hname]
      cases haccept : accept Flag.source given with
      | error why =>
        rw [hset, haccept] at h
        cases h
      | ok w =>
        rw [hset, haccept] at h
        exact ⟨w, rfl, Except.ok.inj h⟩
    · simp [set, index?, FlagTable.standard, hname] at h
  -- the only flag is the one that was set
  have hvalues : (q.put 0 w).values = [w] := by
    obtain ⟨old, hold⟩ := List.length_eq_one_iff.mp q.length_values
    change q.values.set 0 w = [w]
    rw [hold]
    rfl
  intro p hp v hv
  rw [pairs, hvalues, FlagTable.standard, List.zip_cons_cons, List.zip_nil_right,
    List.mem_singleton] at hp
  subst hp
  obtain ⟨b, rfl⟩ := accept_source hw hv
  exact Flag.source_keeps b

end Flags

namespace Reference

open Locator (Fits)

variable {u v : Reference table}

/-! ### Changed parts -/

theorem Survives.fits (hu : u.Survives) : Fits u.base := by
  obtain ⟨hclean, hfragment, -, -⟩ := survives_iff.mp hu
  exact ⟨hclean, hfragment⟩

/-- A reference survives with any other locator that is not empty and fits. -/
theorem Survives.withBase_iff (hu : u.Survives) {base : Text} (hne : base ≠ [])
    (hquery : '?' ∉ base) : Survives ⟨base, u.flags, hquery⟩ ↔ Fits base := by
  refine ⟨fits, fun h => ?_⟩
  exact survives_iff.mpr ⟨h.clean, h.no_fragment, (survives_iff.mp hu).2.2.1, .inl hne⟩

/-- A reference with a locator survives with any other flags that do. -/
theorem Survives.withFlags (hu : u.Survives) (hne : u.base ≠ []) {q : Flags table}
    (hq : q.Survive) : Survives { u with flags := q } :=
  survives_iff.mpr ⟨hu.fits.clean, hu.fits.no_fragment, hq, .inl hne⟩

/-- A reference survives with the locator that some bytes give its archive. -/
theorem Survives.withBytes (hu : u.Survives) (bs : Bytes) {rest : Text}
    (hrest : rest = u.behindArchive) (hquery : '?' ∉ Path.uriOfBytes bs ++ rest) :
    Survives ⟨Path.uriOfBytes bs ++ rest, u.flags, hquery⟩ := by
  have hne : Path.uriOfBytes bs ++ rest ≠ [] :=
    List.append_ne_nil_of_left_ne_nil (Path.uriOfBytes_ne_nil bs) rest
  refine (hu.withBase_iff hne _).mpr ?_
  rw [hrest, behindArchive]
  cases hinner : u.inner? with
  | none =>
    rw [Option.map_none, Option.getD_none, List.append_nil]
    exact Path.fits_uriOfBytes bs
  | some inner =>
    rw [Option.map_some, Option.getD_some,
      Fits.append_cons_iff (by decide) (by decide) (by decide)]
    exact ⟨Path.fits_uriOfBytes bs, hu.fits.inner hinner⟩

theorem Survives.withArchivePath (hu : u.Survives) (cwd p : Path.Posix) :
    (u.withArchivePath cwd p).Survives := by
  refine hu.withBytes (Utf8.encode (p.absolute cwd).toText) ?_ (u.withArchivePath cwd p).no_query
  rw [behindArchive]
  cases u.inner? <;> rfl

/-- **Extensions.** The reference with another extension survives if and only if the extension has
no faults and no number sign. -/
theorem survives_withExtension_iff (hu : u.Survives) {ext : Text}
    (h : u.withExtension ext = .ok v) : v.Survives ↔ Fits ext := by
  have hbase : throughLast '/' u.base ++ renamed u.fileName ext =
      (throughLast '/' u.base ++ before '.' u.fileName) ++ '.' :: ext.dropWhile (· == '.') := by
    rw [renamed, List.append_assoc]
  rw [withExtension, hbase, withBase, ofBase] at h
  split at h
  · cases h
  next hquery =>
  obtain rfl := Except.ok.inj h
  rw [hu.withBase_iff (by simp) hquery,
    Fits.append_cons_iff (by decide) (by decide) (by decide), Fits.dropWhile_dot_iff]
  exact and_iff_right hu.fits.stem

/-- **Changes.** A reference that survives and has a locator survives with the path of any other
archive, with any setting of its flags and with none. With another extension it survives if and
only if the extension has no number sign and no illegal character, and two hexadecimal digits of
the extension follow each of its percent signs. -/
theorem survives_changed {u : Reference .standard} (hu : u.Survives) (hne : u.base ≠ []) :
    (∀ cwd p, (u.withArchivePath cwd p).Survives) ∧
    (∀ ext v, u.withExtension ext = .ok v →
      (v.Survives ↔ '#' ∉ ext ∧ (∀ c ∈ ext, Identifier.isIllegal c = false) ∧
        ∀ p r, ext = p ++ '%' :: r → Identifier.startsWithEscape r)) ∧
    (∀ name given v, u.withFlag name given = .ok v → v.Survives) ∧
    (∀ given v, u.withSource given = .ok v → v.Survives) ∧
    u.withoutFlags.Survives := by
  have hflag : ∀ name given v, u.withFlag name given = .ok v → v.Survives := by
    intro name given v h
    obtain ⟨q, hset, rfl⟩ := withFlag_eq_ok_iff.mp h
    exact hu.withFlags hne ((Flags.kept_of_set hset).survive FlagTable.standard_lawful)
  refine ⟨hu.withArchivePath, fun ext v h => ?_, hflag, fun given v => hflag _ given v, ?_⟩
  · rw [survives_withExtension_iff hu h, ← Identifier.escaped_iff]
    constructor
    · rintro ⟨hclean, hfragment⟩
      exact ⟨hfragment, hclean.legal, hclean.escaped⟩
    · rintro ⟨hfragment, hlegal, hescaped⟩
      exact ⟨⟨hlegal, hescaped⟩, hfragment⟩
  · exact hu.withFlags hne ((Flags.kept_none _).survive FlagTable.standard_lawful)

theorem survives_changed_kotlin : ∃ u v : Reference .standard,
    u.toText = "kls:file:///lib/a.jar!/B.class?source=true".toList ∧ u.Survives ∧
      u.withExtension ".kt".toList = .ok v ∧
      v.toText = "kls:file:///lib/a.jar!/B.kt?source=true".toList ∧ v.Survives ∧
      u.withoutFlags.Survives := by
  have hu : Reference.Survives (⟨"file:///lib/a.jar!/B.class".toList,
      ⟨[some (.truth true)], rfl⟩, by decide⟩ : Reference .standard) :=
    ⟨_, rfl, by decide⟩
  have hchanged := survives_changed hu (List.cons_ne_nil _ _)
  refine ⟨_, ⟨"file:///lib/a.jar!/B.kt".toList, ⟨[some (.truth true)], rfl⟩, by decide⟩, rfl, hu,
    rfl, rfl, (hchanged.2.1 ".kt".toList _ rfl).mpr ⟨by decide, ?_, ?_⟩, hchanged.2.2.2.2⟩
  · exact Identifier.legal_of_all (by decide)
  · exact Identifier.escaped_iff.mp (Identifier.escaped_of_not_mem (by decide))

/-- A number sign in the extension is taken for the start of a fragment when the result is read. -/
theorem survives_changed_fragment : ∃ u v w : Reference .standard,
    u.toText = "kls:a.jar!/B.class".toList ∧ u.Survives ∧ u.base ≠ [] ∧
      u.withExtension "kt#x".toList = .ok v ∧ v.toText = "kls:a.jar!/B.kt#x".toList ∧
      parse .standard v.toText = .ok w ∧ w.base = "a.jar!/B.kt".toList ∧ ¬v.Survives := by
  refine ⟨⟨"a.jar!/B.class".toList, .none _, by decide⟩,
    ⟨"a.jar!/B.kt#x".toList, .none _, by decide⟩, ⟨"a.jar!/B.kt".toList, .none _, by decide⟩,
    rfl, ⟨_, rfl, by decide⟩, List.cons_ne_nil _ _, rfl, rfl, rfl, rfl, fun h => ?_⟩
  exact h.fits.no_fragment (by decide)

end Reference

end EntryRef
