import EntryRef.Proofs.Authority
import EntryRef.Proofs.Flag.Setting
import EntryRef.Proofs.Locator
import EntryRef.Proofs.Reference.RoundTrip

/-!
# Parts of references that are read

Every part of a reference that was read is there, whether or not it names an entry, but for one: the
path of the archive is missing where the archive is a file on a host (`Locator.OnHost`) whose name
is not well formed. The rules for identifiers do not look at hosts. They let brackets pass, and all
characters beyond ASCII but white space.

Main statements: `Locator.exists_archivePath_iff`, `Reference.parts_of_parse`.
-/

namespace EntryRef

open Text
open Authority (WellFormed)
open Identifier (Clean)

/-! ### Hosts -/

namespace Locator

variable {loc rest authority : Text}

/-- The archive is a file on a host: the authority stands between the two slashes behind the scheme
of files and the next slash, or else the end. -/
def OnHost (loc authority : Text) : Prop :=
  ∃ path, archive loc = "file://".toList ++ (authority ++ path) ∧ '/' ∉ authority ∧
    (path = [] ∨ path.head? = some '/')

/-- There is one authority at most. -/
theorem onHost_iff_eq_before {s : Text} (h : archive loc = "file://".toList ++ s) :
    OnHost loc authority ↔ authority = before '/' s := by
  constructor
  · rintro ⟨path, heq, hslash, hpath⟩
    obtain rfl : s = authority ++ path := List.append_cancel_left (h.symm.trans heq)
    rcases hpath with rfl | hpath
    · rw [List.append_nil, before_eq_self hslash]
    · obtain ⟨r, rfl⟩ := List.head?_eq_some_iff.mp hpath
      rw [before_append_cons hslash]
  · rintro rfl
    refine ⟨s.dropWhile (· != '/'), ?_, not_mem_before '/' s, ?_⟩
    · rw [h, before, List.takeWhile_append_dropWhile]
    · cases hrest : s.dropWhile (· != '/') with
      | nil => exact .inl rfl
      | cons c r =>
        have hc := List.head?_dropWhile_not (· != '/') s
        rw [hrest] at hc
        exact .inr (congrArg some (bne_eq_false_iff_eq.mp hc))

/-- The path of the archive is there unless the archive is on a host whose name has a fault. -/
theorem exists_archivePath_iff (h : Bare loc) : (∃ path, archivePath loc = .ok path) ↔
    ∀ authority, OnHost loc authority → WellFormed authority := by
  have harchive : Bare (archive loc) := h.of_subset (before_subset '!' loc)
  by_cases hhost : ∃ s, archive loc = "file://".toList ++ s
  · obtain ⟨s, hs⟩ := hhost
    have hfile : archive loc = "file".toList ++ ':' :: '/' :: '/' :: s := hs
    have hbare : Bare s := harchive.of_subset (hs ▸ List.subset_append_right _ s)
    simp only [onHost_iff_eq_before hs, forall_eq]
    rw [← Authority.fault?_eq_none_iff, archivePath_file hfile, hbare.filePath_cons_cons]
    cases Authority.fault? (before '/' s) with
    | some fault => exact iff_of_false nofun nofun
    | none => exact iff_of_true ⟨_, rfl⟩ rfl
  · refine iff_of_true ?_ fun authority ⟨path, hpath, _⟩ => absurd ⟨_, hpath⟩ hhost
    rcases hsplit : Identifier.splitScheme (archive loc) with ⟨_ | scheme, rest⟩
    · exact ⟨_, by rw [archivePath, hsplit]⟩
    · by_cases hscheme : scheme = "file".toList
      · subst hscheme
        have hfile := Identifier.append_of_splitScheme hsplit
        have hrest : Bare rest := by
          refine harchive.of_subset fun c hc => ?_
          rw [← hfile]
          exact List.mem_append_right _ (List.mem_cons_of_mem _ hc)
        have hpath := hrest.filePath_eq_self fun r hr => hhost ⟨r, by rw [← hfile, hr]; rfl⟩
        exact ⟨_, by rw [archivePath_file hfile.symm, hpath]; rfl⟩
      · exact ⟨_, by rw [archivePath, hsplit]; exact if_neg hscheme⟩

private theorem inner?_eq_none_iff : inner? loc = none ↔ '!' ∉ loc := by
  refine ⟨fun h hm => ?_, inner?_eq_none⟩
  obtain ⟨p, r, rfl, hp⟩ := List.eq_append_cons_of_mem hm
  rw [inner?_append_cons hp] at h
  cases h

private theorem entryName?_eq_none_iff : entryName? loc = none ↔ '!' ∉ loc := by
  rw [entryName?, Option.map_eq_none_iff, inner?_eq_none_iff]

theorem extension?_eq_none_iff {name : Text} : extension? name = none ↔ '.' ∉ name := by
  rw [extension?, ← List.contains_iff_mem]
  split
  · next h => exact iff_of_false nofun (not_not_intro h)
  · next h => exact iff_of_true rfl h

theorem extension?_eq_some_iff {name ext : Text} :
    extension? name = some ext ↔ '.' ∈ name ∧ afterLast '.' name = ext := by
  simp [extension?]

end Locator

/-! ### Flags -/

namespace Flags

variable {table : FlagTable} {q : Flags table}

/-- The flag for the source has a truth value, whether or not it is set. -/
theorem Typed.exists_get_source (ht : table = .standard ∨ table = .extended) (hq : q.Typed) :
    ∃ b, q.get Flag.source.name = .ok (.truth b) := by
  obtain ⟨f, rest, rfl, rfl⟩ : ∃ f rest, table = f :: rest ∧ f = Flag.source := by
    rcases ht with rfl | rfl
    · exact ⟨_, _, rfl, rfl⟩
    · exact ⟨_, _, rfl, rfl⟩
  obtain ⟨values, hlength⟩ := q
  obtain ⟨v, vs, rfl⟩ := List.exists_cons_of_length_eq_add_one hlength
  rw [get, List.zip_cons_cons, List.find?_cons_of_pos (by simp)]
  cases v with
  | none => exact ⟨false, rfl⟩
  | some v =>
    obtain ⟨b, rfl⟩ := Flag.source_typed_iff.mp (hq (Flag.source, some v) List.mem_cons_self v rfl)
    exact ⟨b, rfl⟩

end Flags

/-! ### References -/

namespace Reference

variable {table : FlagTable} {s : Text} {u : Reference table}

/-- The locator of what is read has no faults, and neither a query nor a fragment. -/
theorem Sound.bare (hu : u.Sound) : Locator.Bare u.base where
  legal := hu.clean.legal
  no_query := u.no_query
  no_fragment := hu.no_fragment

/-- **Parts.** The path of the archive is there for a reference that was read unless the archive is
on a host whose name has a fault. Whether the source is wanted can be told for all of them. There is
a path and a name of an entry if and only if there is an exclamation mark, and an extension if and
only if the name of the file has a dot. -/
theorem parts_of_parse (ht : table = .standard ∨ table = .extended) (h : parse table s = .ok u) :
    ((∃ path, u.archivePath = .ok path) ↔
      ∀ authority, Locator.OnHost u.base authority → WellFormed authority) ∧
    (∃ b, u.source = .ok (.truth b)) ∧
    (u.inner? = none ↔ '!' ∉ u.base) ∧ (u.entryName? = none ↔ '!' ∉ u.base) ∧
    (u.extension? = none ↔ '.' ∉ u.fileName) := by
  have hu : u.Sound := sound_of_parse (FlagTable.lawful_of_known ht) h
  obtain ⟨rest, -, -, -, rfl⟩ := parse_eq_ok_iff.mp h
  exact ⟨Locator.exists_archivePath_iff hu.bare,
    (Flags.typed_ofQuery ht _).exists_get_source ht, Locator.inner?_eq_none_iff,
    Locator.entryName?_eq_none_iff, Locator.extension?_eq_none_iff⟩

/-- An address in brackets is well formed, so that its path can be told. -/
theorem parts_of_parse_address : ∃ u : Reference .standard,
    parse .standard "kls:file://[::1]/a.jar!/B.class?source=true".toList = .ok u ∧
      (∃ path, u.archivePath = .ok path) ∧ u.inner? ≠ none ∧ u.extension? ≠ none := by
  have hread : parse .standard "kls:file://[::1]/a.jar!/B.class?source=true".toList =
      .ok (ofSpecific .standard "file://[::1]/a.jar!/B.class?source=true".toList) :=
    parse_eq_ok_iff.mpr ⟨_, rfl, Clean.of_all (by decide) (by decide), by decide, rfl⟩
  obtain ⟨hpath, -, hinner, -, hextension⟩ := parts_of_parse (.inl rfl) hread
  refine ⟨_, hread, hpath.mpr fun authority hhost => ?_, fun h => ?_, fun h => ?_⟩
  · obtain rfl := (Locator.onHost_iff_eq_before (s := "[::1]/a.jar".toList) rfl).mp hhost
    exact Authority.fault?_eq_none_iff.mp (by decide)
  · exact absurd (hinner.mp h) (by decide)
  · exact absurd (hextension.mp h) (by decide)

/-- An opening bracket without a closing one may be read, but there is no path then. -/
theorem parts_of_parse_bracket : ∃ u : Reference .standard,
    parse .standard "kls:file://[x/a.jar".toList = .ok u ∧ '!' ∉ u.base ∧
      u.archivePath = .error .brackets := by
  refine ⟨ofSpecific .standard "file://[x/a.jar".toList, ?_, by decide, ?_⟩
  · exact parse_eq_ok_iff.mpr ⟨_, rfl, Clean.of_all (by decide) (by decide), by decide, rfl⟩
  · rfl

end Reference

end EntryRef
