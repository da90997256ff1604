import EntryRef.Locator
import EntryRef.Proofs.Authority
import EntryRef.Proofs.Identifier

/-!
# Parts of locators

A text `Fits` if it can stand in a locator that is read back, and the parts that a locator is cut
into fit with it.

A locator `LeadsTo` a path if it is the identifier of a file and nothing else, so that neither an
entry nor a query is split off, and the file is at that path. There is one exception, which
`plainDrive` makes for every path: where it looks like that of a drive, its slash is dropped
(`plainDrive_eq`). Where the identifier names a host, the path goes on behind it
(`PlainHost.leadsTo`); of a `Bare` text, the path is all that stands behind the host.
-/

namespace EntryRef.Locator

open Text
open Identifier (Clean)

/-! ### Texts of locators -/

/-- The text can stand in a locator that survives: it has no faults and no number sign. -/
structure Fits (s : Text) : Prop where
  clean : Clean s
  no_fragment : '#' ∉ s

namespace Fits

variable {c : Char} {s t : Text}

/-- A given text without percent signs and number signs fits if its characters are found to be
legal. -/
theorem of_all (hlegal : s.all fun c => !Identifier.isIllegal c) (h : '%' ∉ s ∧ '#' ∉ s) :
    Fits s :=
  ⟨Clean.of_all hlegal h.1, h.2⟩

/-- A text fits just if both sides of a plain character do. -/
theorem append_cons_iff (hlegal : Identifier.isIllegal c = false) (hc : c ≠ '%' ∧ c ≠ '#')
    (hhex : isHex c = false) : Fits (s ++ c :: t) ↔ Fits s ∧ Fits t := by
  have hclean : Clean (s ++ c :: t) ↔ Clean s ∧ Clean t :=
    Clean.append_cons_iff hlegal hc.1 hhex
  have hfragment : '#' ∉ s ++ c :: t ↔ '#' ∉ s ∧ '#' ∉ t := by
    rw [List.mem_append, List.mem_cons, not_or, not_or, and_iff_right (Ne.symm hc.2)]
  constructor
  · rintro ⟨h, hm⟩
    exact ⟨⟨(hclean.mp h).1, (hfragment.mp hm).1⟩, (hclean.mp h).2, (hfragment.mp hm).2⟩
  · rintro ⟨hs, ht⟩
    exact ⟨hclean.mpr ⟨hs.clean, ht.clean⟩, hfragment.mpr ⟨hs.no_fragment, ht.no_fragment⟩⟩

theorem nil : Fits [] := of_all rfl ⟨List.not_mem_nil, List.not_mem_nil⟩

theorem append (hs : Fits s) (ht : Fits t) : Fits (s ++ t) where
  clean := hs.clean.append ht.clean
  no_fragment := by
    rw [List.mem_append, not_or]
    exact ⟨hs.no_fragment, ht.no_fragment⟩

protected theorem before (hhex : isHex c = false) (h : Fits s) : Fits (before c s) where
  clean := h.clean.before hhex
  no_fragment hm := h.no_fragment (before_subset c s hm)

/-- Leading dots do not matter. -/
theorem dropWhile_dot_iff : Fits (s.dropWhile (· == '.')) ↔ Fits s := by
  obtain ⟨dots, hs, hdot⟩ := exists_append_dropWhile '.' s
  have hdots : Fits dots := by
    refine ⟨Clean.of_not_mem (fun c hc => ?_) fun h => absurd (hdot _ h) (by decide),
      fun h => absurd (hdot _ h) (by decide)⟩
    rw [hdot c hc]
    decide
  constructor
  · intro h
    rw [hs]
    exact hdots.append h
  · intro h
    rw [hs] at h
    exact ⟨h.clean.of_append_right, fun hm => h.no_fragment (List.mem_append_right _ hm)⟩

theorem inner {p : Text} (hs : Fits s) (h : inner? s = some p) : Fits p := by
  obtain ⟨r, hr, rfl⟩ := Option.map_eq_some_iff.mp h
  rw [← before_append_after hr,
    append_cons_iff (by decide) (by decide) (by decide)] at hs
  exact hs.2.before (by decide)

/-- What stands before the extension of a file. -/
theorem stem (hs : Fits s) : Fits (throughLast '/' s ++ before '.' (fileName s)) := by
  have hsplit : throughLast '/' s ++ fileName s = s := throughLast_append_afterLast '/' s
  rw [← hsplit] at hs
  by_cases hdot : '.' ∈ fileName s
  · obtain ⟨name, r, hname, hfirst⟩ := List.eq_append_cons_of_mem hdot
    rw [hname, ← List.append_assoc,
      append_cons_iff (by decide) (by decide) (by decide)] at hs
    rw [hname, before_append_cons hfirst]
    exact hs.1
  · rwa [before_eq_self hdot]

end Fits

/-! ### Archives and entries -/

section Cuts

variable {uri : Text}

theorem archive_eq_self (h : '!' ∉ uri) : archive uri = uri := before_eq_self h

/-- The archive is what stands before the first mark. -/
theorem archive_append_cons (h : '!' ∉ uri) (r : Text) : archive (uri ++ '!' :: r) = uri :=
  before_append_cons h r

theorem inner?_eq_none (h : '!' ∉ uri) : inner? uri = none := by
  rw [inner?, after?_eq_none h]
  rfl

/-- The inner part is what stands between the first mark and the second. -/
theorem inner?_append_cons (h : '!' ∉ uri) (r : Text) :
    inner? (uri ++ '!' :: r) = some (before '!' r) := by
  rw [inner?, after?_append_cons h]
  rfl

theorem mark_not_mem_inner {inner : Text} (h : inner? uri = some inner) : '!' ∉ inner := by
  obtain ⟨r, -, rfl⟩ := Option.map_eq_some_iff.mp h
  exact not_mem_before '!' r

/-- There is just one exclamation mark if and only if the inner path is all that follows it. -/
theorem count_mark_eq_one_iff {inner : Text} (h : inner? uri = some inner) :
    uri.count '!' = 1 ↔ after? '!' uri = some inner := by
  obtain ⟨r, hr, rfl⟩ := Option.map_eq_some_iff.mp h
  have hfront : (before '!' uri).count '!' = 0 :=
    List.count_eq_zero_of_not_mem (not_mem_before '!' uri)
  have hcount : uri.count '!' = r.count '!' + 1 := by
    rw [← before_append_after hr, List.count_append, hfront, List.count_cons_self, Nat.zero_add]
  rw [hcount, Nat.add_eq_right, List.count_eq_zero, hr, Option.some.injEq]
  constructor
  · exact fun hmark => (before_eq_self hmark).symm
  · intro hwhole
    rw [hwhole]
    exact not_mem_before '!' r

/-- The file is named by the last segment of the inner part, if that has a slash. -/
theorem fileName_append_cons {inner : Text} (h : '/' ∈ inner) :
    fileName (uri ++ '!' :: inner) = afterLast '/' inner := by
  rw [fileName, List.append_cons, afterLast_append h]

/-- The path of the archive depends on nothing but the archive. -/
theorem archivePath_congr {loc other : Text} (h : archive loc = archive other) :
    archivePath loc = archivePath other := by
  rw [archivePath, h, ← archivePath]

end Cuts

/-! ### Drives -/

/-- Does the path start like that of a drive in an identifier, with a slash, a letter and a
colon? -/
def namesDrive : Text → Bool
  | '/' :: c :: ':' :: _ => c.isAlpha
  | _ => false

/-- The slash before a drive letter is dropped, and no other. -/
theorem plainDrive_eq (path : Text) :
    plainDrive path = if namesDrive path then path.tail else path := by
  unfold plainDrive
  split
  · rfl
  · next hother =>
    have hdrive : namesDrive path = false := by
      unfold namesDrive
      split
      · next c r => exact absurd rfl (hother c r)
      · rfl
    rw [hdrive]
    rfl

/-! ### Identifiers of files -/

/-- The locator is the identifier of a file and nothing else, and the file is at the path, but for
the slash before a drive. -/
structure LeadsTo (uri path : Text) : Prop where
  fits : Fits uri
  no_query : '?' ∉ uri
  no_mark : '!' ∉ uri
  scheme : ∃ rest, rest ≠ [] ∧ uri = "file".toList ++ ':' :: rest
  archivePath_eq : archivePath uri = .ok (plainDrive path)

/-- A text that leads to a path is not empty. -/
theorem LeadsTo.ne_nil {uri path : Text} (h : LeadsTo uri path) : uri ≠ [] := by
  obtain ⟨rest, -, rfl⟩ := h.scheme
  exact List.append_ne_nil_of_right_ne_nil _ (List.cons_ne_nil _ _)

/-- The archive of a file is its path, decoded, with a slash dropped before a drive. -/
theorem archivePath_file {loc rest : Text} (h : archive loc = "file".toList ++ ':' :: rest) :
    archivePath loc = (filePath rest).map fun p => plainDrive (Percent.decode p) := by
  rw [archivePath, h, Identifier.splitScheme_append_cons (by decide)]
  exact if_pos rfl

/-- The text has no illegal character, and neither a query nor a fragment starts in it. -/
structure Bare (s : Text) : Prop where
  legal : ∀ c ∈ s, Identifier.isIllegal c = false
  no_query : '?' ∉ s
  no_fragment : '#' ∉ s

namespace Bare

variable {s : Text}

theorem of_subset {t : Text} (h : Bare s) (hsub : t ⊆ s) : Bare t where
  legal c hc := h.legal c (hsub hc)
  no_query hm := h.no_query (hsub hm)
  no_fragment hm := h.no_fragment (hsub hm)

private theorem slash_cons (h : Bare s) : Bare ('/' :: s) where
  legal := List.forall_mem_cons.mpr ⟨by decide, h.legal⟩
  no_query := by simpa using h.no_query
  no_fragment := by simpa using h.no_fragment

/-- There is neither a tab nor a line break to be left out. -/
theorem filter_eq_self (h : Bare s) :
    s.filter (fun c => c != '\t' && c != '\r' && c != '\n') = s := by
  have hne : ∀ x, Identifier.isIllegal x = true → ∀ c ∈ s, c ≠ x := by
    rintro x hx c hc rfl
    rw [h.legal c hc] at hx
    exact Bool.false_ne_true hx
  rw [List.filter_eq_self]
  intro c hc
  simp only [Bool.and_eq_true, bne_iff_ne]
  exact ⟨⟨hne '\t' (by decide) c hc, hne '\r' (by decide) c hc⟩, hne '\n' (by decide) c hc⟩

/-- All of the text is the path, unless two slashes start an authority. -/
theorem filePath_eq_self (h : Bare s) (hhost : ∀ r, s ≠ '/' :: '/' :: r) : filePath s = .ok s := by
  rw [filePath, h.filter_eq_self]
  split
  · next r => exact absurd rfl (hhost r)
  · change Except.ok (before '?' (before '#' s)) = Except.ok s
    rw [before_eq_self h.no_fragment, before_eq_self h.no_query]

/-- Two slashes start an authority, which reaches to the next slash. -/
theorem filePath_cons_cons (h : Bare s) : filePath ('/' :: '/' :: s) =
    match Authority.fault? (before '/' s) with
    | some fault => .error fault
    | none => .ok (s.dropWhile (· != '/')) := by
  have hinHost : ∀ c ∈ s, (c != '/' && c != '?' && c != '#') = (c != '/') := by
    intro c hc
    have hquery : c ≠ '?' := fun hcq => h.no_query (hcq ▸ hc)
    have hfragment : c ≠ '#' := fun hcf => h.no_fragment (hcf ▸ hc)
    rw [bne_iff_ne.mpr hquery, bne_iff_ne.mpr hfragment, Bool.and_true, Bool.and_true]
  obtain ⟨htake, hdrop⟩ := takeWhile_dropWhile_congr hinHost
  have hsub : s.dropWhile (· != '/') ⊆ s := (List.dropWhile_sublist _).subset
  have hpath : before '?' (before '#' (s.dropWhile (· != '/'))) = s.dropWhile (· != '/') := by
    rw [before_eq_self fun hm => h.no_fragment (hsub hm),
      before_eq_self fun hm => h.no_query (hsub hm)]
  unfold filePath
  simp only [h.slash_cons.slash_cons.filter_eq_self, htake, hdrop, hpath]
  rfl

end Bare

/-- A name of letters, digits and the marks of encoded text. -/
def PlainHost (host : Text) : Prop :=
  ∀ c ∈ host, c.isAlphanum ∨ c ∈ ['_', '.', '-', '~', '%']

namespace PlainHost

variable {host path : Text}

theorem not_mem (h : PlainHost host) {c : Char}
    (hc : ¬(c.isAlphanum ∨ c ∈ ['_', '.', '-', '~', '%'])) : c ∉ host :=
  fun hm => hc (h c hm)

theorem legal (h : PlainHost host) : ∀ c ∈ host, Identifier.isIllegal c = false := by
  intro c hc
  rcases h c hc with hc | hc
  · exact Identifier.isIllegal_of_isAlphanum hc
  · exact Identifier.legal_of_all (s := ['_', '.', '-', '~', '%']) (by decide) c hc

private theorem wellFormed (h : PlainHost host) : Authority.WellFormed host where
  brackets := .inl ⟨h.not_mem (by decide), h.not_mem (by decide)⟩
  incompatible c hc hm := by
    have hnone : Authority.compatibles.all fun c =>
        !(c.isAlphanum || ['_', '.', '-', '~', '%'].contains c) := by decide
    have hother := List.all_eq_true.mp hnone c hm
    exact absurd (h c hc) (by simpa using hother)

/-- The host is not part of the path. -/
theorem filePath_eq (h : PlainHost host) (hfits : Fits ('/' :: path)) (hquery : '?' ∉ path) :
    filePath ('/' :: '/' :: (host ++ '/' :: path)) = .ok ('/' :: path) := by
  have hbare : Bare (host ++ '/' :: path) := by
    refine ⟨List.forall_mem_append.mpr ⟨h.legal, hfits.clean.legal⟩, ?_, ?_⟩
    · rw [List.mem_append, List.mem_cons, not_or, not_or]
      exact ⟨h.not_mem (by decide), by decide, hquery⟩
    · rw [List.mem_append, not_or]
      exact ⟨h.not_mem (by decide), hfits.no_fragment⟩
  have hslash : '/' ∉ host := h.not_mem (by decide)
  rw [hbare.filePath_cons_cons, before_append_cons hslash,
    Authority.fault?_eq_none_iff.mpr h.wellFormed,
    List.dropWhile_append_of_pos fun c hc => ?_, List.dropWhile_cons_of_neg (by decide)]
  rw [bne_iff_ne]
  exact fun hcs => hslash (hcs ▸ hc)

/-- A character that is in no host and not in `file:///` can only be in the path. -/
theorem not_mem_uri (h : PlainHost host) {c : Char}
    (hc : ¬(c.isAlphanum ∨ c ∈ ['_', '.', '-', '~', '%']) ∧ c ∉ "file:///".toList)
    (hpath : c ∉ path) : c ∉ "file://".toList ++ host ++ '/' :: path := by
  have hstart : c ∉ "file://".toList ++ ['/'] := hc.2
  rw [List.mem_append, List.mem_singleton, not_or] at hstart
  rw [List.mem_append, List.mem_append, List.mem_cons, not_or, not_or, not_or]
  exact ⟨⟨hstart.1, h.not_mem hc.1⟩, hstart.2, hpath⟩

/-- An identifier with a host leads to what is left of it without the host. -/
theorem leadsTo (h : PlainHost host) (hclean : Clean host) (hfits : Fits ('/' :: path))
    (hquery : '?' ∉ path) (hmark : '!' ∉ path) :
    LeadsTo ("file://".toList ++ host ++ '/' :: path) (Percent.decode ('/' :: path)) := by
  have huri : "file://".toList ++ host ++ '/' :: path =
      "file".toList ++ ':' :: '/' :: '/' :: (host ++ '/' :: path) := by
    rw [List.append_assoc]
    rfl
  have hnoMark : '!' ∉ "file://".toList ++ host ++ '/' :: path := h.not_mem_uri (by decide) hmark
  refine ⟨?_, h.not_mem_uri (by decide) hquery, hnoMark, ⟨_, List.cons_ne_nil _ _, huri⟩, ?_⟩
  · have hstart : Fits "file://".toList := Fits.of_all (by decide) (by decide)
    exact (hstart.append ⟨hclean, h.not_mem (by decide)⟩).append hfits
  · rw [archivePath_file ((archive_eq_self hnoMark).trans huri), h.filePath_eq hfits hquery]
    rfl

end PlainHost

end EntryRef.Locator
