import EntryRef.Proofs.Path.FileUri
import EntryRef.Proofs.Reference.Survival
import EntryRef.Reference.Normal

/-!
# Files have references

The reference of a file has the identifier of the file for its locator and no flags
(`Reference.normalizeText_file`), and it is read back from its text (`Reference.survives_file`).

An absolute path is such an identifier if it can be encoded (`Identifying.Encodable`): a
slash-separated one, if each of its surrogates stands for a byte, and a backslash-separated one, if
it has no surrogates. It is normalized to the reference of the file to which its file URI leads
(`Reference.normalize_absolutePath`), and every other absolute path is refused
(`Reference.exists_normalize_iff`).
-/

namespace EntryRef

open Text
open Identifier (Clean)
open Locator (LeadsTo)

variable {table : FlagTable} {uri path : Text}

/-! ### Absolute paths -/

namespace Identifying

variable {i : Identifying table} {cwd : Path.Raw}

/-- The identifier is an absolute path of either kind. -/
def IsAbsolutePath : Identifying table → Prop
  | .posix p => p.isAbsolute
  | .windows p => p.Proper ∧ p.isAbsolute
  | _ => False

/-- The identifier can be encoded, as far as its surrogates go. -/
def Encodable : Identifying table → Prop
  | .posix p => ∀ n, .surrogate n ∈ p.toGlyphs → (Glyph.escaped? n).isSome
  | .windows p => ∀ n, .surrogate n ∉ p.toSlashes
  | _ => True

/-- The file URI of a path. -/
def fileUri (cwd : Path.Raw) : Identifying table → Except Glyph.Unencodable Text
  | .posix p => p.fileUri cwd
  | .windows p => p.fileUri cwd
  | .text s => .ok s
  | .reference u => .ok u.toText

/-- An absolute path has a file URI if and only if it can be encoded. -/
theorem IsAbsolutePath.exists_fileUri_iff (h : i.IsAbsolutePath) (cwd : Path.Raw) :
    (∃ uri, i.fileUri cwd = .ok uri) ↔ i.Encodable := by
  cases i with
  | text s => exact h.elim
  | posix p =>
    have habsolute : p.absolute cwd = p := Path.Slashed.absolute_eq_self h cwd
    change (∃ uri, (p.bytes cwd).map Path.uriOfBytes = .ok uri) ↔ _
    rw [Glyph.exists_map_ok_iff, Path.Raw.exists_bytes_iff, habsolute]
    exact Iff.rfl
  | windows p =>
    change (∃ uri, p.fileUri cwd = .ok uri) ↔ _
    rw [Path.Windows.fileUri, if_pos h.2, h.1.exists_absoluteUri_iff h.2]
    exact Iff.rfl
  | reference u => exact h.elim

/-- The file URI of an absolute path leads somewhere. -/
theorem IsAbsolutePath.exists_leadsTo (h : i.IsAbsolutePath) (huri : i.fileUri cwd = .ok uri) :
    ∃ path, LeadsTo uri path := by
  cases i with
  | text s => exact h.elim
  | posix p =>
    have habsolute : (p.absolute cwd).isAbsolute := by
      rw [show p.absolute cwd = p from Path.Slashed.absolute_eq_self h cwd]
      exact h
    obtain ⟨bs, hbytes, rfl⟩ := Path.Raw.exists_bytes_of_fileUri huri
    exact ⟨_, Path.Raw.leadsTo_of_bytes habsolute hbytes⟩
  | windows p =>
    obtain ⟨hp, hrooted⟩ := h
    have habsolute : p.absoluteUri = .ok uri := by
      rw [← huri]
      exact (if_pos hrooted).symm
    by_cases hletter : ∃ c, p.drive = [.char c, .char ':']
    · obtain ⟨c, hc⟩ := hletter
      obtain ⟨r, -, hleads⟩ := hp.leadsTo_letter hrooted hc habsolute
      exact ⟨_, hleads⟩
    · obtain ⟨host, r, -, -, hleads⟩ := hp.leadsTo_share hrooted hletter habsolute
      exact ⟨_, hleads⟩
  | reference u => exact h.elim

end Identifying

/-! ### References of files -/

namespace Reference

/-- The reference of a file. -/
def ofFile (table : FlagTable) (h : LeadsTo uri path) : Reference table :=
  ⟨uri, .none table, h.no_query⟩

/-- The file URI of a path is normalized to the reference of the file. -/
theorem normalizeText_file (h : LeadsTo uri path) :
    normalizeText table uri = .ok (some (ofFile table h)) := by
  obtain ⟨rest, hne, huri⟩ := h.scheme
  have hfragment : '#' ∉ rest := by
    intro hm
    refine h.fits.no_fragment ?_
    rw [huri]
    exact List.mem_append_right _ (List.mem_cons_of_mem _ hm)
  have hfault : Identifier.fault? uri = none := by
    rw [Identifier.fault?_eq_none_iff]
    refine ⟨h.ne_nil, h.fits.clean, fun r hr => ?_⟩
    rw [huri, after?_append_cons (by decide), Option.some.injEq] at hr
    rw [huri, before_append_cons (by decide), ← hr, before_eq_self hfragment]
    exact ⟨by decide, fun _ => hne⟩
  have hsplit : Identifier.splitScheme uri = (some "file".toList, rest) := by
    rw [huri]
    exact Identifier.splitScheme_append_cons (by decide) rest
  have hspecific : ofSpecific table uri = ofFile table h := by
    have hquery := ofSpecific_append_toQuery h.no_query h.fits.no_fragment (Flags.none table)
    rwa [Flags.toQuery_none, Flags.reread_none, List.append_nil] at hquery
  have hparse : parse table (scheme ++ ':' :: uri) = .ok (ofFile table h) := by
    have hbody : before '#' uri ≠ [] := by
      rw [before_eq_self h.fits.no_fragment]
      exact h.ne_nil
    rw [parse_scheme_append h.fits.clean hbody, hspecific]
  rw [normalizeText, hfault, hsplit]
  simp only [hparse]
  rfl

/-- The reference of a file is read back from its text. -/
theorem survives_file (h : LeadsTo uri path) : (ofFile table h).Survives :=
  survives_iff.mpr ⟨h.fits.clean, h.fits.no_fragment, Flags.survive_none table, .inl h.ne_nil⟩

@[simp]
theorem flags_ofFile (h : LeadsTo uri path) : (ofFile table h).flags = .none table := rfl

@[simp]
theorem inner?_ofFile (h : LeadsTo uri path) : (ofFile table h).inner? = none :=
  Locator.inner?_eq_none h.no_mark

@[simp]
theorem archivePath_ofFile (h : LeadsTo uri path) :
    (ofFile table h).archivePath = .ok (Locator.plainDrive path) := h.archivePath_eq

/-- An absolute path is normalized to the reference of its file. -/
theorem normalize_absolutePath {i : Identifying table} {cwd : Path.Raw} (hi : i.IsAbsolutePath)
    (huri : i.fileUri cwd = .ok uri) (h : LeadsTo uri path) :
    normalize cwd i = .ok (some (ofFile table h)) := by
  cases i with
  | text s => exact hi.elim
  | posix p =>
    change normalizeUri table (p.fileUri cwd) = _
    rw [show p.fileUri cwd = .ok uri from huri]
    exact normalizeText_file h
  | windows p =>
    change normalizeUri table (p.fileUri cwd) = _
    rw [show p.fileUri cwd = .ok uri from huri]
    exact normalizeText_file h
  | reference u => exact hi.elim

/-- A path without a file URI is refused. -/
theorem normalize_of_error {i : Identifying table} {cwd : Path.Raw} {why : Glyph.Unencodable}
    (huri : i.fileUri cwd = .error why) : normalize cwd i = .error (.unencodable why) := by
  cases i with
  | text s => cases huri
  | posix p =>
    change normalizeUri table (p.fileUri cwd) = _
    rw [show p.fileUri cwd = .error why from huri]
    rfl
  | windows p =>
    change normalizeUri table (p.fileUri cwd) = _
    rw [show p.fileUri cwd = .error why from huri]
    rfl
  | reference u => cases huri

/-- An absolute path is normalized if and only if it can be encoded. -/
theorem exists_normalize_iff {i : Identifying table} (hi : i.IsAbsolutePath) (cwd : Path.Raw) :
    (∃ v, normalize cwd i = .ok v) ↔ i.Encodable := by
  rw [← hi.exists_fileUri_iff cwd]
  constructor
  · rintro ⟨v, hv⟩
    cases huri : i.fileUri cwd with
    | ok uri => exact ⟨uri, rfl⟩
    | error why => exact nomatch hv.symm.trans (normalize_of_error huri)
  · rintro ⟨uri, huri⟩
    obtain ⟨path, hleads⟩ := hi.exists_leadsTo huri
    exact ⟨_, normalize_absolutePath hi huri hleads⟩

end Reference

end EntryRef
