import EntryRef.Proofs.Reference.Moved
import EntryRef.Proofs.Reference.Normal

/-!
# Paths in references

A path gets into a reference in two ways: as the path of another archive
(`Reference.withArchiveAt`), and as the identifier of a file (`Reference.normalize`). Either way its
file URI becomes the archive, and no part of the path is taken for more than a part of the path
(`Reference.path_contained`). A path comes back as the path of the archive, but for the slash before
a drive and for the host of a network share (`Reference.archivePath_of_path`).

Both hold of all text, and not of all glyphs. A surrogate that stands for no byte is refused. Those
that stand for bytes are taken for these, so that three of them may give the reference that a
character gives (`Reference.path_contained_surrogates`), and they do not come back
(`Reference.archivePath_of_path_drive`).
-/

namespace EntryRef

open Text
open Locator (namesDrive plainDrive plainDrive_eq LeadsTo)

variable {table : FlagTable}

namespace Reference

/-! ### Paths go in -/

/-- **Containment.** The path of another archive is accepted if and only if each of its surrogates,
as seen from the directory, stands for a byte, whatever its characters are. It changes neither the
flags nor the inner path, and a reference that survives still does. Paths give the same reference if
and only if they have the same bytes, which for paths without surrogates means that they are the
same as seen from the directory. An absolute path of either kind that can be encoded has a reference
of its own, with neither an inner path nor a flag, and that survives. -/
theorem path_contained (table : FlagTable) (cwd : Path.Raw) :
    (∀ (u : Reference table) (p : Path.Raw),
      ((∃ v, u.withArchiveAt cwd p = .ok v) ↔
        ∀ n, .surrogate n ∈ (p.absolute cwd).toGlyphs → (Glyph.escaped? n).isSome) ∧
      ∀ v, u.withArchiveAt cwd p = .ok v →
        v.flags = u.flags ∧ v.inner? = u.inner? ∧ (u.Survives → v.Survives)) ∧
    (∀ (u : Reference table) (p q : Path.Raw) v w,
      u.withArchiveAt cwd p = .ok v → u.withArchiveAt cwd q = .ok w →
      (v.same w ↔ p.bytes cwd = q.bytes cwd) ∧
      ((∀ n, .surrogate n ∉ (p.absolute cwd).toGlyphs) →
        (∀ n, .surrogate n ∉ (q.absolute cwd).toGlyphs) →
        (v.same w ↔ (p.absolute cwd).toGlyphs = (q.absolute cwd).toGlyphs))) ∧
    (∀ i : Identifying table, i.IsAbsolutePath →
      ((∃ v, normalize cwd i = .ok v) ↔ i.Encodable) ∧
      ∀ v, normalize cwd i = .ok v → ∃ w, v = some w ∧
        w.inner? = none ∧ w.flags = .none table ∧ w.Survives) := by
  refine ⟨fun u p => ⟨?_, fun v hv => ?_⟩, fun u p q v w hv hw => ⟨?_, fun hp hq => ?_⟩,
    fun i hi => ⟨exists_normalize_iff hi cwd, fun v hv => ?_⟩⟩
  · rw [exists_withArchiveAt_iff, Path.Raw.exists_bytes_iff]
  · exact ⟨flags_of_withArchiveAt hv, inner?_of_withArchiveAt hv, fun hu => hu.of_withArchiveAt hv⟩
  · exact same_of_withArchiveAt_iff hv hw
  · obtain ⟨s, hs⟩ := Glyph.exists_toGlyphs_eq_iff.mpr hp
    obtain ⟨t, ht⟩ := Glyph.exists_toGlyphs_eq_iff.mpr hq
    rw [same_of_withArchiveAt_iff hv hw, Path.Raw.bytes_of_toGlyphs hs.symm,
      Path.Raw.bytes_of_toGlyphs ht.symm, ← hs, ← ht, Except.ok.injEq,
      Utf8.encode_injective.eq_iff, toGlyphs_injective.eq_iff]
  · obtain ⟨uri, huri⟩ := (hi.exists_fileUri_iff cwd).mpr ((exists_normalize_iff hi cwd).mp ⟨v, hv⟩)
    obtain ⟨path, hleads⟩ := hi.exists_leadsTo huri
    have hfile := normalize_absolutePath hi huri hleads
    exact ⟨ofFile table hleads, Except.ok.inj (hv.symm.trans hfile), inner?_ofFile hleads,
      flags_ofFile hleads, survives_file hleads⟩

theorem path_contained_marks : ∃ u v w : Reference .standard,
    u.text = .ok "kls:file:///lib/a.jar!/B.class?source=true".toList ∧
      u.withArchiveAt (.ofText "/work".toList) (.ofText "a b!#?%.jar".toList) = .ok v ∧
      v.text = .ok "kls:file:///work/a%20b%21%23%3F%25.jar!/B.class?source=true".toList ∧
      v.Survives ∧
      normalize (.ofText "/work".toList) (.windows (.ofText "C:\\a!b.jar".toList)) =
        .ok (some w) ∧ w.inner? = none ∧ w.Survives := by
  obtain ⟨hmoved, -, hfile⟩ := path_contained .standard (.ofText "/work".toList)
  let u : Reference .standard :=
    ⟨"file:///lib/a.jar!/B.class".toList, ⟨[some (.truth true)], rfl⟩, by decide⟩
  let v : Reference .standard :=
    ⟨"file:///work/a%20b%21%23%3F%25.jar!/B.class".toList, ⟨[some (.truth true)], rfl⟩, by decide⟩
  have hv : u.withArchiveAt (.ofText "/work".toList) (.ofText "a b!#?%.jar".toList) = .ok v := rfl
  obtain ⟨hencodable, hnormalized⟩ := hfile (.windows (.ofText "C:\\a!b.jar".toList))
    ⟨Path.Windows.proper_ofText _, by decide⟩
  obtain ⟨x, hx⟩ := hencodable.mpr fun n hn => by
    revert hn
    exact surrogate_not_mem_toGlyphs "C:/a!b.jar".toList n
  obtain ⟨w, rfl, hinner, -, hsurvives⟩ := hnormalized x hx
  exact ⟨u, v, w, rfl, hv, rfl, ((hmoved u _).2 v hv).2.2 ⟨_, rfl, by decide⟩, hx, hinner,
    hsurvives⟩

/-- The surrogate U+D800 stands for no byte, so that a path with it is refused. The surrogates
U+DCC3 and U+DCA9 stand for the bytes of a character, so that a path with them gives the reference
that the path with the character gives. -/
theorem path_contained_surrogates : ∃ u v : Reference .standard,
    u.text = .ok "kls:file:///lib/a.jar!/B.class".toList ∧ u.Survives ∧
      (∀ w, u.withArchiveAt (.ofText "/work".toList)
        (.ofGlyphs [.char '/', .char 'a', .surrogate 0]) ≠ .ok w) ∧
      u.withArchiveAt (.ofText "/work".toList)
        (.ofGlyphs [.char '/', .surrogate 0x4c3, .surrogate 0x4a9]) = .ok v ∧
      u.withArchiveAt (.ofText "/work".toList) (.ofText ['/', 'é']) = .ok v ∧
      (Path.Raw.ofGlyphs [.char '/', .surrogate 0x4c3, .surrogate 0x4a9]).toGlyphs ≠
        (Path.Raw.ofText ['/', 'é']).toGlyphs := by
  refine ⟨⟨"file:///lib/a.jar!/B.class".toList, .none _, by decide⟩,
    ⟨"file:///%C3%A9!/B.class".toList, .none _, by decide⟩, rfl, ⟨_, rfl, by decide⟩, fun w h => ?_,
    rfl, rfl, by decide⟩
  have hencodable := ((path_contained .standard _).1 _ _).1.mp ⟨w, h⟩
  exact absurd (hencodable 0 (by decide)) (by decide)

/-! ### Paths come back -/

section Normalized

variable {cwd : Path.Raw} {t : Text}

/-- The path of another archive comes back, but for the slash before a drive. -/
theorem archivePath_of_toGlyphs (hcwd : cwd.isAbsolute) (u : Reference table) {p : Path.Raw}
    (hp : (p.absolute cwd).toGlyphs = t.toGlyphs) : ∃ v, u.withArchiveAt cwd p = .ok v ∧
      v.archivePath = .ok (plainDrive t) := by
  have hbytes := Path.Raw.bytes_of_toGlyphs hp
  obtain ⟨v, hv⟩ := exists_withArchiveAt_iff.mpr ⟨_, hbytes⟩
  have hpath := archivePath_of_withArchiveAt (Path.Slashed.isAbsolute_absolute hcwd p) hbytes hv
  rw [Utf8.decodeLossy_encode] at hpath
  exact ⟨v, hv, hpath⟩

private theorem archivePath_normalize_posix (table : FlagTable) {p : Path.Raw} (h : p.isAbsolute)
    (hp : p.toGlyphs = t.toGlyphs) : ∃ v : Reference table,
      normalize cwd (.posix p) = .ok (some v) ∧ v.archivePath = .ok (plainDrive t) := by
  have hi : (Identifying.posix p : Identifying table).IsAbsolutePath := h
  have habsolute : p.absolute cwd = p := Path.Slashed.absolute_eq_self h cwd
  rw [← habsolute] at hp
  have hbytes := Path.Raw.bytes_of_toGlyphs hp
  have hleads := Path.Raw.leadsTo_of_bytes (by rwa [habsolute]) hbytes
  rw [Utf8.decodeLossy_encode] at hleads
  exact ⟨_, normalize_absolutePath hi (Path.Raw.fileUri_of_bytes hbytes) hleads,
    archivePath_ofFile hleads⟩

variable {p : Path.Windows}

/-- The file of an absolute path is where its own file URI leads. -/
theorem archivePath_normalize_windows (table : FlagTable) (hp : p.Proper) (h : p.isAbsolute)
    {uri path : Text} (huri : p.absoluteUri = .ok uri) (hleads : LeadsTo uri path) :
    ∃ v : Reference table, normalize cwd (.windows p) = .ok (some v) ∧
      v.archivePath = .ok (plainDrive path) := by
  have hi : (Identifying.windows p : Identifying table).IsAbsolutePath := ⟨hp, h⟩
  have huri' : (Identifying.windows p : Identifying table).fileUri cwd = .ok uri := by
    rw [← huri]
    exact if_pos h
  exact ⟨_, normalize_absolutePath hi huri' hleads, archivePath_ofFile hleads⟩

end Normalized

/-- **Paths come back.** The path of the archive is the one that it was given, as seen from the
directory, if that has no surrogates and does not look like that of a drive, with a slash, a letter
and a colon in front. The same holds of the reference of an absolute slash-separated path. A path on
a drive comes back in its form with slashes. Any other backslash-separated path has a host behind
two slashes, and what follows the host comes back, if that does not look like the path of a
drive. -/
theorem archivePath_of_path (table : FlagTable) {cwd : Path.Raw} (hcwd : cwd.isAbsolute) :
    (∀ (u : Reference table) (p : Path.Raw) t, (p.absolute cwd).toGlyphs = t.toGlyphs →
      namesDrive t = false → ∃ v, u.withArchiveAt cwd p = .ok v ∧ v.archivePath = .ok t) ∧
    (∀ (p : Path.Raw) t, p.isAbsolute → p.toGlyphs = t.toGlyphs → namesDrive t = false →
      ∃ v : Reference table, normalize cwd (.posix p) = .ok (some v) ∧ v.archivePath = .ok t) ∧
    (∀ (p : Path.Windows) t, p.Proper → p.isAbsolute → p.toSlashes = t.toGlyphs →
      ∃ v : Reference table, normalize cwd (.windows p) = .ok (some v) ∧
      ((∃ c, p.drive = [.char c, .char ':']) → v.archivePath = .ok t) ∧
      ((¬∃ c, p.drive = [.char c, .char ':']) → ∃ host r, '/' ∉ host ∧
        t = '/' :: '/' :: (host ++ '/' :: r) ∧
        (namesDrive ('/' :: r) = false → v.archivePath = .ok ('/' :: r)))) := by
  have hplain : ∀ {t : Text}, namesDrive t = false → plainDrive t = t := fun {t} h => by
    rw [plainDrive_eq, h]
    rfl
  refine ⟨fun u p t hp ht => ?_, fun p t h hp ht => ?_, fun p t hproper h hp => ?_⟩
  · obtain ⟨v, hv, hpath⟩ := archivePath_of_toGlyphs hcwd u hp
    rw [hplain ht] at hpath
    exact ⟨v, hv, hpath⟩
  · obtain ⟨v, hv, hpath⟩ := archivePath_normalize_posix table h hp
    rw [hplain ht] at hpath
    exact ⟨v, hv, hpath⟩
  · obtain ⟨uri, huri⟩ := (hproper.exists_absoluteUri_iff h).mpr
      (Glyph.exists_toGlyphs_eq_iff.mp ⟨t, hp.symm⟩)
    by_cases hletter : ∃ c, p.drive = [.char c, .char ':']
    · obtain ⟨c, hc⟩ := hletter
      obtain ⟨r, hslashes, hleads⟩ := hproper.leadsTo_letter h hc huri
      obtain ⟨v, hv, hpath⟩ := archivePath_normalize_windows table hproper h huri hleads
      obtain rfl : t = c :: ':' :: r := toGlyphs_injective (hp.symm.trans hslashes)
      -- the slash before the letter is the one that the file URI has put there
      have hdrive : namesDrive ('/' :: c :: ':' :: r) = true := hproper.isAlpha hc
      rw [plainDrive_eq, hdrive] at hpath
      exact ⟨v, hv, fun _ => hpath, fun hno => absurd ⟨c, hc⟩ hno⟩
    · obtain ⟨host, r, hslashes, hhost, hleads⟩ := hproper.leadsTo_share h hletter huri
      obtain ⟨v, hv, hpath⟩ := archivePath_normalize_windows table hproper h huri hleads
      refine ⟨v, hv, fun h => absurd h hletter, fun _ => ⟨host, r, hhost, ?_, fun hr => ?_⟩⟩
      · exact toGlyphs_injective (hp.symm.trans hslashes)
      · rwa [hplain hr] at hpath

theorem archivePath_of_path_spaces : ∃ u v w : Reference .standard,
    u.archivePath = .ok "/lib/a.jar".toList ∧
      u.withArchiveAt (.ofText "/work".toList) (.ofText "my lib!.jar".toList) = .ok v ∧
      v.archivePath = .ok "/work/my lib!.jar".toList ∧
      normalize (.ofText "/work".toList) (.windows (.ofText "C:\\my lib!.jar".toList)) =
        .ok (some w) ∧ w.archivePath = .ok "C:/my lib!.jar".toList := by
  have hcwd : (Path.Raw.ofText "/work".toList).isAbsolute := by decide
  obtain ⟨hmoved, -, hwindows⟩ := archivePath_of_path .standard hcwd
  obtain ⟨v, hv, hpath⟩ := hmoved ⟨"file:///lib/a.jar!/B.class".toList, .none _, by decide⟩
    (.ofText "my lib!.jar".toList) "/work/my lib!.jar".toList (by decide) (by decide)
  obtain ⟨w, hw, hletter, -⟩ := hwindows (.ofText "C:\\my lib!.jar".toList)
    "C:/my lib!.jar".toList (Path.Windows.proper_ofText _) (by decide) (by decide)
  exact ⟨_, v, w, by decide, hv, hpath, hw, hletter ⟨'C', rfl⟩⟩

/-- A directory may have the name of a drive, and then its slash is dropped. The surrogate U+DCFF
stands for a byte that is no text, and is read back as U+FFFD. A network share has a host, and it is
dropped. -/
theorem archivePath_of_path_drive : ∃ u v w x : Reference .standard,
    u.text = .ok "kls:file:///lib/a.jar!/B.class".toList ∧
      u.withArchiveAt (.ofText "/work".toList) (.ofText "/c:/lib.jar".toList) = .ok v ∧
      v.archivePath = .ok "c:/lib.jar".toList ∧
      u.withArchiveAt (.ofText "/work".toList) (.ofGlyphs [.char '/', .surrogate 0x4ff]) = .ok w ∧
      w.archivePath = .ok ['/', '\uFFFD'] ∧
      (Path.Windows.ofText "\\\\host\\share\\a.jar".toList).isAbsolute ∧
      (Path.Windows.ofText "\\\\host\\share\\a.jar".toList).toSlashes =
        Text.toGlyphs "//host/share/a.jar".toList ∧
      normalize (.ofText "/work".toList)
        (.windows (.ofText "\\\\host\\share\\a.jar".toList)) = .ok (some x) ∧
      x.archivePath = .ok "/share/a.jar".toList :=
  ⟨⟨"file:///lib/a.jar!/B.class".toList, .none _, by decide⟩,
    ⟨"file:///c%3A/lib.jar!/B.class".toList, .none _, by decide⟩,
    ⟨"file:///%FF!/B.class".toList, .none _, by decide⟩,
    ⟨"file://host/share/a.jar".toList, .none _, by decide⟩,
    rfl, rfl, by decide, rfl, by decide, by decide, by decide, rfl, by decide⟩

end Reference

end EntryRef
