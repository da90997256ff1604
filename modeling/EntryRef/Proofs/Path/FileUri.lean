import EntryRef.Path.FileUri
import EntryRef.Proofs.Locator
import EntryRef.Proofs.Path.Posix
import EntryRef.Proofs.Text.Glyph

/-!
# File URIs lead back to their paths

The bytes of a path are encoded in its file URI, so that none of them means anything to a locator:
the URI is a locator without faults, and it has neither an entry nor a query
(`leadsTo_uriOfBytes`, `Windows.Proper.leadsTo_letter`). Different bytes have different URIs
(`uriOfBytes_injective`).

What is read from the URI is the text that the bytes stand for. That is the path itself if it has no
surrogates, with two exceptions. A path that looks like that of a drive loses its first slash
(`Locator.plainDrive_eq`), and a path on a network share loses its host
(`Windows.Proper.leadsTo_share`).
-/

namespace EntryRef.Path

open Text
open Identifier (Clean)
open Locator (Fits PlainHost LeadsTo)

/-! ### Encoded paths -/

section Encoded

private theorem fits_encodeBytes (bs : Bytes) : Fits (Percent.encodeBytes ['/'] bs) where
  clean := Identifier.clean_encodeBytes (by decide) (Identifier.legal_of_all (by decide)) bs
  no_fragment := Percent.not_mem_encodeBytes (by decide)

private theorem plainHost_encode {s : Text} (h : '/' ∉ s) : PlainHost (Percent.encode ['/'] s) := by
  intro c hc
  rcases Percent.mem_encode hc with hm | hm | hm
  · exact .inl hm
  · exact .inr hm
  · obtain rfl : c = '/' := List.mem_singleton.mp hm
    exact absurd (Percent.mem_of_mem_encode (by decide) (by decide) (by decide) hc) h

/-- Encoded bytes, behind a front that is not encoded and behind an encoded host. -/
theorem leadsTo_encodeBytes {host front : Text} (hhost : '/' ∉ host) (hfits : Fits front)
    (hplain : '%' ∉ front ∧ '?' ∉ front ∧ '!' ∉ front) (bs : Bytes) :
    LeadsTo ("file://".toList ++ Percent.encode ['/'] host ++
      '/' :: (front ++ Percent.encodeBytes ['/'] bs)) ('/' :: (front ++ Utf8.decodeLossy bs)) := by
  obtain ⟨hpercent, hquery, hmark⟩ := hplain
  have hdecode : Percent.decode (('/' :: front) ++ Percent.encodeBytes ['/'] bs) =
      ('/' :: front) ++ Utf8.decodeLossy bs := by
    refine Percent.decode_append_encodeBytes (by decide) ?_ bs
    rw [List.mem_cons, not_or]
    exact ⟨by decide, hpercent⟩
  have hpath : Fits ('/' :: (front ++ Percent.encodeBytes ['/'] bs)) := by
    have hslash : Fits ['/'] := Fits.of_all (by decide) (by decide)
    exact hslash.append (hfits.append (fits_encodeBytes bs))
  have hleads := (plainHost_encode hhost).leadsTo (fits_encodeBytes _).clean hpath
    (by rw [List.mem_append, not_or]; exact ⟨hquery, Percent.not_mem_encodeBytes (by decide)⟩)
    (by rw [List.mem_append, not_or]; exact ⟨hmark, Percent.not_mem_encodeBytes (by decide)⟩)
  rwa [← List.cons_append, hdecode] at hleads

/-- A path behind a host leads to itself, in its encoded form behind a front that is written as it
is. -/
private theorem leadsTo_encode {host front : Text} (hhost : '/' ∉ host) (hfits : Fits front)
    (hplain : '%' ∉ front ∧ '?' ∉ front ∧ '!' ∉ front) (s : Text) :
    LeadsTo ("file://".toList ++ Percent.encode ['/'] host ++
      '/' :: (front ++ Percent.encode ['/'] s)) ('/' :: (front ++ s)) := by
  have hleads := leadsTo_encodeBytes hhost hfits hplain (Utf8.encode s)
  rwa [Utf8.decodeLossy_encode] at hleads

end Encoded

/-! ### File URIs of bytes -/

section Uri

variable {bs : Bytes}

private theorem uriOfBytes_eq (bs : Bytes) :
    uriOfBytes bs = "file://".toList ++ Percent.encodeBytes ['/'] bs := rfl

/-- What is made of the bytes of a path fits into a reference. -/
theorem fits_uriOfBytes (bs : Bytes) : Fits (uriOfBytes bs) := by
  have hstart : Fits "file://".toList := Fits.of_all (by decide) (by decide)
  exact hstart.append (fits_encodeBytes bs)

theorem uriOfBytes_ne_nil (bs : Bytes) : uriOfBytes bs ≠ [] :=
  List.append_ne_nil_of_left_ne_nil (by decide) _

private theorem not_mem_uriOfBytes {c : Char} (hstart : c ∉ "file://".toList)
    (h : ¬(c.isAlphanum ∨ c ∈ ['_', '.', '-', '~', '%'] ∨ c ∈ ['/'])) : c ∉ uriOfBytes bs := by
  intro hm
  rcases List.mem_append.mp hm with hm | hm
  · exact hstart hm
  · exact Percent.not_mem_encodeBytes h hm

/-- A question mark in a path is encoded, so that none starts a query. -/
theorem question_not_mem_uriOfBytes : '?' ∉ uriOfBytes bs :=
  not_mem_uriOfBytes (by decide) (by decide)

/-- An exclamation mark in a path is encoded, so that none ends the archive. -/
theorem mark_not_mem_uriOfBytes : '!' ∉ uriOfBytes bs :=
  not_mem_uriOfBytes (by decide) (by decide)

/-- Different bytes have different file URIs. -/
theorem uriOfBytes_injective : Function.Injective uriOfBytes := fun _ _ h =>
  Percent.encodeBytes_injective (by decide) (List.append_cancel_left h)

/-- The bytes of an absolute path start with a slash. -/
theorem leadsTo_uriOfBytes (rest : Bytes) :
    LeadsTo (uriOfBytes (String.utf8EncodeChar '/' ++ rest))
      (Utf8.decodeLossy (String.utf8EncodeChar '/' ++ rest)) := by
  have hslash : String.utf8EncodeChar '/' = Utf8.encode ['/'] := by decide
  have hkept : Percent.encodeBytes ['/'] (Utf8.encode ['/']) = ['/'] := by decide
  have hhost : Percent.encode ['/'] [] = [] := by decide
  have hleads := leadsTo_encodeBytes List.not_mem_nil .nil
    ⟨List.not_mem_nil, List.not_mem_nil, List.not_mem_nil⟩ rest
  rw [hhost, List.append_nil, List.nil_append, List.nil_append] at hleads
  rw [hslash, uriOfBytes_eq, Percent.encodeBytes_append, hkept, Utf8.decodeLossy_encode_append]
  exact hleads

end Uri

/-! ### Slash-separated paths -/

namespace Slashed

variable {α : Type} {slash dot : α}

theorem isAbsolute_absolute {cwd : Slashed α} (h : cwd.isAbsolute) (p : Slashed α) :
    (p.absolute cwd).isAbsolute := by
  unfold absolute
  split
  · next hp => exact hp
  · exact h

/-- An absolute path is not seen from anywhere. -/
theorem absolute_eq_self {p : Slashed α} (h : p.isAbsolute) (cwd : Slashed α) :
    p.absolute cwd = p :=
  if_pos h

private theorem exists_written_eq_cons {p : Slashed α} (h : p.isAbsolute) :
    ∃ r, p.written slash dot = slash :: r := by
  obtain ⟨anchor, segments⟩ := p
  cases anchor with
  | relative => exact absurd h (by simp [isAbsolute])
  | root => exact ⟨_, rfl⟩
  | doubleRoot => exact ⟨_, rfl⟩

/-- A path is written in the same way in other names. -/
theorem map_written {β : Type} (f : α → β) (p : Slashed α) :
    (p.written slash dot).map f =
      (⟨p.anchor, p.segments.map (List.map f)⟩ : Slashed β).written (f slash) (f dot) := by
  have hjoined : (joined [slash] p.segments).map f =
      joined [f slash] (p.segments.map (List.map f)) := map_joined f [slash] p.segments
  have hempty : (joined [f slash] (p.segments.map (List.map f))).isEmpty =
      (joined [slash] p.segments).isEmpty := by
    rw [← hjoined, List.isEmpty_map]
  obtain ⟨anchor, segments⟩ := p
  cases anchor with
  | relative =>
    simp only [written, hempty]
    split
    · rfl
    · exact hjoined
  | root => exact congrArg (f slash :: ·) hjoined
  | doubleRoot => exact congrArg (f slash :: f slash :: ·) hjoined

end Slashed

namespace Posix

variable {p cwd : Posix}

theorem isAbsolute_absolute (h : cwd.isAbsolute) (p : Posix) : (p.absolute cwd).isAbsolute :=
  Slashed.isAbsolute_absolute h p

theorem mark_not_mem_fileUri (p cwd : Posix) : '!' ∉ p.fileUri cwd := mark_not_mem_uriOfBytes

end Posix

namespace Raw

variable {p cwd : Raw} {bs : Bytes}

/-- A path can be encoded if and only if each of its surrogates, as seen from the directory, stands
for a byte. -/
theorem exists_bytes_iff : (∃ bs, p.bytes cwd = .ok bs) ↔
    ∀ n, .surrogate n ∈ (p.absolute cwd).toGlyphs → (Glyph.escaped? n).isSome :=
  Glyph.exists_encode_iff

/-- A path has a uri only if it has bytes, and those are what is encoded. -/
theorem exists_bytes_of_fileUri {uri : Text} (h : p.fileUri cwd = .ok uri) :
    ∃ bs, p.bytes cwd = .ok bs ∧ uri = uriOfBytes bs := by
  rw [fileUri] at h
  cases hbytes : p.bytes cwd with
  | error why =>
    rw [hbytes] at h
    cases h
  | ok bs =>
    rw [hbytes] at h
    exact ⟨bs, rfl, (Except.ok.inj h).symm⟩

theorem fileUri_of_bytes (h : p.bytes cwd = .ok bs) : p.fileUri cwd = .ok (uriOfBytes bs) := by
  rw [fileUri, h]
  rfl

/-- The file URI of a path leads to the text of its bytes. -/
theorem leadsTo_of_bytes (h : (p.absolute cwd).isAbsolute) (hbytes : p.bytes cwd = .ok bs) :
    LeadsTo (uriOfBytes bs) (Utf8.decodeLossy bs) := by
  obtain ⟨r, hr⟩ : ∃ r, (p.absolute cwd).toGlyphs = .char '/' :: r :=
    Slashed.exists_written_eq_cons h
  rw [bytes, hr] at hbytes
  obtain ⟨rest, rfl⟩ := Glyph.exists_of_encode_cons hbytes
  exact leadsTo_uriOfBytes rest

/-- The bytes of a path without surrogates are those of its text. -/
theorem bytes_of_toGlyphs {t : Text} (h : (p.absolute cwd).toGlyphs = t.toGlyphs) :
    p.bytes cwd = .ok (Utf8.encode t) := by
  rw [bytes, h, Glyph.encode_toGlyphs]

/-- A text is read as the same path in glyphs. -/
theorem toRaw_ofText (s : Text) : (Posix.ofText s).toRaw = ofText s := by
  have hanchor : Posix.anchorOf s = anchorBehind (.char '/') s.toGlyphs := by
    have hslash : ((fun g => g == Glyph.char '/') ∘ Glyph.char) = (· == '/') := by
      funext c
      rw [Function.comp_apply, Bool.eq_iff_iff, beq_iff_eq, beq_iff_eq, Glyph.char.injEq]
    rw [Posix.anchorOf, anchorBehind, anchorBehind, Text.toGlyphs, List.takeWhile_map,
      List.length_map, hslash]
  have hnames : (namedSegments '/' s).map Text.toGlyphs =
      namesBetween (.char '/') (.char '.') s.toGlyphs := by
    have hpieces : (pieces '/' s).map Text.toGlyphs = pieces (.char '/') s.toGlyphs :=
      map_pieces (fun _ _ h => Glyph.char.inj h) '/' s
    rw [namedSegments, namesBetween, namesBetween, ← hpieces, List.filter_map]
    refine congrArg _ (List.filter_congr fun p _ => ?_)
    have hdot : Text.toGlyphs p = [.char '.'] ↔ p = ['.'] := Text.toGlyphs_injective.eq_iff' rfl
    rw [Function.comp_apply, Text.toGlyphs, List.isEmpty_map, Bool.eq_iff_iff]
    simp only [Bool.and_eq_true, bne_iff_ne, ne_eq]
    exact and_congr_right fun _ => (not_congr hdot).symm
  rw [Posix.toRaw, Posix.ofText, hanchor, hnames]
  rfl

/-- A path in text has the same absolute form in glyphs. -/
theorem toGlyphs_absolute_toRaw (p cwd : Posix) :
    (absolute p cwd).toGlyphs = (p.absolute cwd).toText.toGlyphs := by
  have habsolute : absolute p cwd = (p.absolute cwd).toRaw := by
    change Slashed.absolute p.toRaw cwd.toRaw = Posix.toRaw (Slashed.absolute p cwd)
    unfold Slashed.absolute
    rw [apply_ite Posix.toRaw]
    refine if_congr Iff.rfl rfl ?_
    simp only [Posix.toRaw, List.map_append]
  rw [habsolute]
  exact (Slashed.map_written Glyph.char _).symm

theorem bytes_toRaw (p cwd : Posix) :
    bytes p cwd = .ok (Utf8.encode (p.absolute cwd).toText) :=
  bytes_of_toGlyphs (toGlyphs_absolute_toRaw p cwd)

end Raw

/-! ### Backslash-separated paths -/

namespace Windows

/-- What a drive may be: nothing, a letter with a colon, or two backslashes and what follows them on
a network share or in an extended path. -/
inductive IsDrive : List Glyph → Prop
  | missing : IsDrive []
  | letter {c : Char} (h : c.isAlpha) : IsDrive [.char c, .char ':']
  | share (d : List Glyph) : IsDrive (.char '\\' :: .char '\\' :: d)

/-- A drive that is not a letter is a share. -/
private theorem IsDrive.exists_share {drive : List Glyph} (h : IsDrive drive) (hne : drive ≠ [])
    (hletter : ¬∃ c, drive = [.char c, .char ':']) :
    ∃ d, drive = .char '\\' :: .char '\\' :: d := by
  cases h with
  | missing => exact absurd rfl hne
  | letter => exact absurd ⟨_, rfl⟩ hletter
  | share d => exact ⟨d, rfl⟩

/-- What holds of every path that is read: its drive is one, and no segment is empty or has a
separator of either kind. -/
structure Proper (p : Windows) : Prop where
  drive : IsDrive p.drive
  segments : ∀ s ∈ p.segments, s ≠ [] ∧ .char '\\' ∉ s ∧ .char '/' ∉ s

/-! #### Paths that are read -/

/-- The mark of an extended path is two backslashes with something behind them, if there is one. -/
private theorem extended_spec (s : List Glyph) : ((extended s).1 = [] ∨
    ∃ d, (extended s).1 = .char '\\' :: .char '\\' :: d) ∧ (extended s).2 ⊆ s := by
  unfold extended
  split
  · next r =>
    have hr : r ⊆ Text.toGlyphs ['\\', '\\', '?', '\\', 'U', 'N', 'C', '\\'] ++ r :=
      List.subset_append_right _ r
    exact ⟨.inr ⟨_, rfl⟩, List.cons_subset.mpr ⟨List.mem_cons_self,
      List.cons_subset.mpr ⟨List.mem_cons_self, hr⟩⟩⟩
  · next r _ =>
    exact ⟨.inr ⟨_, rfl⟩, List.subset_append_right (Text.toGlyphs ['\\', '\\', '?', '\\']) r⟩
  · exact ⟨.inl rfl, List.Subset.refl _⟩

/-- A share starts with two backslashes. -/
private theorem share?_eq_some {s drive rest : List Glyph} (h : share? s = some (drive, rest)) :
    (∃ d, drive = .char '\\' :: .char '\\' :: d) ∧ rest ⊆ s := by
  unfold share? at h
  split at h
  · next r =>
    split at h
    · cases h
    obtain ⟨t, ht, h⟩ := Option.bind_eq_some_iff.mp h
    split at h
    · cases h
    obtain ⟨rfl, rfl⟩ := Prod.mk.inj (Option.some.inj h)
    refine ⟨⟨_, rfl⟩, fun c hc => ?_⟩
    have hct : c ∈ t := by
      rcases hafter : after? (.char '\\') t with _ | x
      · rw [hafter] at hc
        cases hc
      · rw [hafter] at hc
        exact after?_subset hafter hc
    exact List.mem_cons_of_mem _ (List.mem_cons_of_mem _ (after?_subset ht hct))
  · cases h

/-- What is cut off as a letter is a drive. -/
private theorem letter_spec (s : List Glyph) : IsDrive (letter s).1 ∧ (letter s).2 ⊆ s := by
  unfold letter
  split
  · next c r =>
    split
    · next hc => exact ⟨.letter hc, List.subset_append_right (Text.toGlyphs [c, ':']) r⟩
    · exact ⟨.missing, List.Subset.refl _⟩
  · exact ⟨.missing, List.Subset.refl _⟩

private theorem anchored_eq (s : List Glyph) : anchored s = match share? (extended s).2 with
    | some (drive, rest) =>
      (if (extended s).1.isEmpty then drive else (extended s).1 ++ drive.drop 1, true, rest)
    | none => ((extended s).1 ++ (letter (extended s).2).1,
      (letter (extended s).2).2.head? == some (.char '\\'),
      (letter (extended s).2).2.dropWhile (· == .char '\\')) := rfl

/-- Whatever a path starts with, its drive is one. -/
private theorem anchored_spec (s : List Glyph) :
    IsDrive (anchored s).1 ∧ (anchored s).2.2 ⊆ s := by
  obtain ⟨hstart, hsub⟩ := extended_spec s
  rw [anchored_eq]
  generalize extended s = start at hstart hsub ⊢
  obtain ⟨ext, t⟩ := start
  cases hshare : share? t with
  | some found =>
    obtain ⟨drive, rest⟩ := found
    obtain ⟨⟨d, rfl⟩, hrest⟩ := share?_eq_some hshare
    refine ⟨?_, List.Subset.trans hrest hsub⟩
    rcases hstart with rfl | ⟨e, rfl⟩
    · exact .share d
    · exact .share _
  | none =>
    obtain ⟨hletter, hrest⟩ := letter_spec t
    have hdropped : (letter t).2.dropWhile (· == .char '\\') ⊆ t :=
      List.Subset.trans (List.dropWhile_sublist _).subset hrest
    refine ⟨?_, List.Subset.trans hdropped hsub⟩
    rcases hstart with rfl | ⟨e, rfl⟩
    · exact hletter
    · exact .share _

/-- Every list of glyphs is read as a proper path. -/
theorem proper_ofGlyphs (s : List Glyph) : (ofGlyphs s).Proper := by
  obtain ⟨hdrive, hrest⟩ := anchored_spec (s.map fun g => if g = .char '/' then .char '\\' else g)
  refine ⟨hdrive, fun t ht => ?_⟩
  obtain ⟨hpiece, hnamed⟩ := List.mem_filter.mp ht
  rw [Bool.and_eq_true, Bool.not_eq_true', List.isEmpty_eq_false_iff] at hnamed
  refine ⟨hnamed.1, not_mem_of_mem_pieces hpiece, fun hslash => ?_⟩
  obtain ⟨g, -, hg⟩ := List.mem_map.mp (hrest (subset_of_mem_pieces hpiece hslash))
  -- the slashes were made backslashes
  split at hg
  · exact absurd hg (by decide)
  · next hne => exact hne hg

/-- A path that was read is proper, whatever the text. -/
theorem proper_ofText (s : Text) : (ofText s).Proper := proper_ofGlyphs _

/-! #### Their file URIs -/

section FileUri

variable {p : Windows} {uri : Text}

/-- The segments as they stand in the form with slashes. -/
def names (p : Windows) : List Glyph :=
  (joined [.char '\\'] p.segments).map fun g => if g = .char '\\' then .char '/' else g

private theorem toSlashes_of_rooted (h : p.rooted) : p.toSlashes =
    (p.drive.map fun g => if g = .char '\\' then .char '/' else g) ++ .char '/' :: p.names := by
  have htext : p.toGlyphs = p.drive ++ .char '\\' :: joined [.char '\\'] p.segments := by
    have hall : p.drive ++ [.char '\\'] ++ joined [.char '\\'] p.segments =
        p.drive ++ .char '\\' :: joined [.char '\\'] p.segments := List.append_assoc _ _ _
    have hne : (p.drive ++ .char '\\' :: joined [.char '\\'] p.segments).isEmpty = false := by
      rw [List.isEmpty_eq_false_iff]
      exact List.append_ne_nil_of_right_ne_nil _ (List.cons_ne_nil _ _)
    unfold toGlyphs
    simp only [h, if_true, hall, hne]
    rfl
  rw [toSlashes, htext, List.map_append, List.map_cons]
  rfl

private theorem Proper.head?_names_ne (hp : p.Proper) : p.names.head? ≠ some (.char '/') := by
  unfold names
  cases hsegments : p.segments with
  | nil => simp [joined]
  | cons s ss =>
    obtain ⟨hne, hback, hslash⟩ := hp.segments s (hsegments ▸ List.mem_cons_self)
    obtain ⟨x, r, rfl⟩ := List.exists_cons_of_ne_nil hne
    have hx : x ≠ .char '\\' := fun heq => hback (heq ▸ List.mem_cons_self)
    rw [joined, List.cons_append, List.map_cons, if_neg hx, List.head?_cons]
    exact fun heq => hslash (Option.some.inj heq ▸ List.mem_cons_self)

/-- The drive of a proper path is a letter of the alphabet, if it is a letter. -/
theorem Proper.isAlpha (hp : p.Proper) {c : Char} (hc : p.drive = [.char c, .char ':']) :
    c.isAlpha := by
  have hdrive : IsDrive [.char c, .char ':'] := hc ▸ hp.drive
  cases hdrive with
  | letter h => exact h

/-! ##### Paths on a drive with a letter -/

section Letter

variable {c : Char} (hp : p.Proper) (h : p.isAbsolute) (hc : p.drive = [.char c, .char ':'])

include hp h hc

private theorem Proper.toSlashes_letter :
    p.toSlashes = Text.toGlyphs [c, ':', '/'] ++ p.names := by
  have hback : Glyph.char c ≠ .char '\\' := by
    intro heq
    obtain rfl := Glyph.char.inj heq
    exact absurd (hp.isAlpha hc) (by decide)
  rw [toSlashes_of_rooted (Bool.and_eq_true_iff.mp h).1, hc, List.map_cons, if_neg hback]
  rfl

/-- A path on a drive is written with the letter as it is. -/
private theorem Proper.absoluteUri_letter : p.absoluteUri =
    (Glyph.encode Glyph.unescaped? p.names).map fun bs =>
      "file:///".toList ++ c :: ':' :: '/' :: Percent.encodeBytes ['/'] bs := by
  have hnames : (p.toSlashes.drop 2).dropWhile (· == .char '/') = p.names := by
    rw [hp.toSlashes_letter h hc]
    exact dropWhile_eq_self_iff.mpr hp.head?_names_ne
  unfold absoluteUri
  rw [hc, hnames]
  rfl

/-- The path of a drive with a letter stands behind a slash in its file URI. -/
theorem Proper.leadsTo_letter (huri : p.absoluteUri = .ok uri) :
    ∃ r : Text, p.toSlashes = Text.toGlyphs (c :: ':' :: r) ∧
      LeadsTo uri ('/' :: c :: ':' :: r) := by
  rw [hp.absoluteUri_letter h hc] at huri
  cases hnames : Glyph.encode Glyph.unescaped? p.names with
  | error why =>
    rw [hnames] at huri
    cases huri
  | ok bs =>
    rw [hnames] at huri
    obtain ⟨t, ht, rfl⟩ := Glyph.exists_text_of_encode_unescaped hnames
    have huri' : uri = "file://".toList ++ Percent.encode ['/'] [] ++
        '/' :: ([c, ':', '/'] ++ Percent.encode ['/'] t) := (Except.ok.inj huri).symm
    have hplain : Identifier.Plain [c] := by
      intro x hx
      rw [List.mem_singleton.mp hx, Char.isAlphanum, hp.isAlpha hc]
      exact .inl rfl
    have hfits : Fits ([c] ++ [':', '/']) := by
      have hmarks : Fits [':', '/'] := Fits.of_all (by decide) (by decide)
      exact Fits.append ⟨hplain.clean, hplain.not_mem (by decide)⟩ hmarks
    have hnot : ∀ x, ¬(x.isAlphanum ∨ x = '-') → x ∉ [':', '/'] → x ∉ [c] ++ [':', '/'] := by
      intro x hx hmarks
      rw [List.mem_append, not_or]
      exact ⟨hplain.not_mem hx, hmarks⟩
    refine ⟨'/' :: t, ?_, ?_⟩
    · rw [hp.toSlashes_letter h hc, ← ht]
      rfl
    · rw [huri']
      exact leadsTo_encode List.not_mem_nil hfits ⟨hnot '%' (by decide) (by decide),
        hnot '?' (by decide) (by decide), hnot '!' (by decide) (by decide)⟩ t

end Letter

/-! ##### Other paths -/

section Share

variable (h : p.isAbsolute) (hc : ¬∃ c, p.drive = [.char c, .char ':'])

include hc

/-- A path on a share is written with the share as its host. -/
private theorem absoluteUri_share : p.absoluteUri =
    (Glyph.encode Glyph.unescaped? p.toSlashes).map fun bs =>
      "file:".toList ++ Percent.encodeBytes ['/'] bs := by
  unfold absoluteUri
  split
  · next c hletter => exact absurd ⟨c, hletter⟩ hc
  · rfl

include h

/-- Any other drive starts with two slashes and a host, and the host is lost. -/
theorem Proper.leadsTo_share (hp : p.Proper) (huri : p.absoluteUri = .ok uri) :
    ∃ host r : Text, p.toSlashes = Text.toGlyphs ('/' :: '/' :: (host ++ '/' :: r)) ∧ '/' ∉ host ∧
      LeadsTo uri ('/' :: r) := by
  obtain ⟨hrooted, hdrive⟩ := Bool.and_eq_true_iff.mp h
  have hne : p.drive ≠ [] := by
    intro hnil
    rw [hnil] at hdrive
    exact Bool.false_ne_true hdrive
  obtain ⟨d, hd⟩ := hp.drive.exists_share hne hc
  rw [absoluteUri_share hc] at huri
  cases hslashes : Glyph.encode Glyph.unescaped? p.toSlashes with
  | error why =>
    rw [hslashes] at huri
    cases huri
  | ok bs =>
    rw [hslashes] at huri
    obtain ⟨t, ht, rfl⟩ := Glyph.exists_text_of_encode_unescaped hslashes
    -- the host ends at the first slash, which is at the latest the one at the root
    have htext : t.toGlyphs = .char '/' :: .char '/' ::
        ((d.map fun g => if g = .char '\\' then .char '/' else g) ++ .char '/' :: p.names) := by
      rw [ht, toSlashes_of_rooted hrooted, hd]
      rfl
    obtain ⟨u, rfl, hu⟩ : ∃ u : Text, t = '/' :: '/' :: u ∧ '/' ∈ u := by
      obtain ⟨x, t', rfl, hx, htail⟩ := List.map_eq_cons_iff.mp htext
      obtain ⟨y, u, rfl, hy, hrest⟩ := List.map_eq_cons_iff.mp htail
      obtain rfl := Glyph.char.inj hx
      obtain rfl := Glyph.char.inj hy
      have hmem : Glyph.char '/' ∈ u.map .char := by
        rw [hrest]
        exact List.mem_append_right _ List.mem_cons_self
      obtain ⟨c, hcu, hslash⟩ := List.mem_map.mp hmem
      exact ⟨u, rfl, Glyph.char.inj hslash ▸ hcu⟩
    obtain ⟨host, r, rfl, hslash⟩ := List.eq_append_cons_of_mem hu
    refine ⟨host, r, ht.symm, hslash, ?_⟩
    have huri' : uri = "file:".toList ++
        Percent.encode ['/'] ('/' :: '/' :: (host ++ '/' :: r)) := (Except.ok.inj huri).symm
    rw [huri', Percent.encode_slash_cons, Percent.encode_slash_cons, Percent.encode_append,
      Percent.encode_slash_cons]
    exact leadsTo_encode hslash .nil ⟨List.not_mem_nil, List.not_mem_nil, List.not_mem_nil⟩ r

end Share

/-- An absolute path has a file URI if and only if it has no surrogates. -/
theorem Proper.exists_absoluteUri_iff (hp : p.Proper) (h : p.isAbsolute) :
    (∃ uri, p.absoluteUri = .ok uri) ↔ ∀ n, .surrogate n ∉ p.toSlashes := by
  have hunescaped : ∀ s : List Glyph, (∀ n, .surrogate n ∈ s → (Glyph.unescaped? n).isSome) ↔
      ∀ n, .surrogate n ∉ s :=
    fun s => forall_congr' fun n => imp_congr_right fun _ => iff_of_false Bool.false_ne_true id
  by_cases hletter : ∃ c, p.drive = [.char c, .char ':']
  · obtain ⟨c, hc⟩ := hletter
    rw [hp.absoluteUri_letter h hc, Glyph.exists_map_ok_iff, Glyph.exists_encode_iff, hunescaped,
      hp.toSlashes_letter h hc]
    refine forall_congr' fun n => not_congr ?_
    rw [List.mem_append, or_iff_right (surrogate_not_mem_toGlyphs _ n)]
  · rw [absoluteUri_share hletter, Glyph.exists_map_ok_iff, Glyph.exists_encode_iff, hunescaped]

end FileUri

end Windows

end EntryRef.Path
