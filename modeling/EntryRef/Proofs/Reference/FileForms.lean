import EntryRef.Proofs.Locator
import EntryRef.Proofs.Percent.Kept
import EntryRef.Proofs.Reference.RoundTrip

/-!
# Forms of file identifiers

The path of a file can stand behind the scheme alone, behind two slashes, or behind two slashes and
a host. A reference leads to the same archive in each of these forms, with an entry behind the path
or without one (`Reference.archivePath_file_forms`): to the unescaped path, but for the slash before
a drive.

The slash is looked for after the path has been unescaped, so that an escaped colon makes a drive as
well. What has no part in escapes stays in the path: neither a semicolon nor an at sign ends it,
though elsewhere in an identifier they may.
-/

namespace EntryRef

open Text
open Identifier (Clean)

namespace Locator

variable {front p s uri path : Text}

/-! ### Drives and kept characters -/

private theorem cons_tail_of_namesDrive (h : namesDrive s = true) : '/' :: s.tail = s := by
  unfold namesDrive at h
  split at h
  · rfl
  · cases h

/-- Nothing but the slash before a drive is missing in front of a character that is no slash. -/
theorem exists_plainDrive_append_cons {c : Char} (hc : c ≠ '/') (s r : Text) :
    ∃ front, plainDrive (s ++ c :: r) = front ++ c :: r ∧ (front = s ∨ '/' :: front = s) := by
  rw [plainDrive_eq]
  split
  · next hdrive =>
    have htail := cons_tail_of_namesDrive hdrive
    cases s with
    | nil => exact absurd (List.cons.inj htail).1.symm hc
    | cons x s => exact ⟨s, rfl, .inr (by rw [(List.cons.inj htail).1])⟩
  · exact ⟨s, rfl, .inl rfl⟩

/-- Marks that end a part of some identifiers, and characters beyond ASCII, have no part in
escapes. -/
theorem kept_of_mark_or_wide {c : Char} (h : c ∈ [';', '@', ':', '['] ∨ 128 ≤ c.toNat) :
    c ≠ '%' ∧ c ≠ '/' ∧ isHex c = false := by
  rcases h with h | h
  · simp only [List.mem_cons, List.not_mem_nil, or_false] at h
    rcases h with rfl | rfl | rfl | rfl <;> decide
  · have hne : ∀ x : Char, x.toNat < 128 → c ≠ x := by
      rintro x hx rfl
      exact absurd hx (Nat.not_lt.mpr h)
    refine ⟨hne '%' (by decide), hne '/' (by decide), ?_⟩
    have hle : ∀ x : Char, x.toNat < 128 → ¬c ≤ x := fun x hx hcx =>
      absurd (Nat.lt_of_le_of_lt (UInt32.le_iff_toNat_le.mp hcx) hx) (Nat.not_lt.mpr h)
    rw [isHex, hexValue?, if_neg fun hc => hle '9' (by decide) hc.2,
      if_neg fun hc => hle 'f' (by decide) hc.2, if_neg fun hc => hle 'F' (by decide) hc.2]
    rfl

/-! ### Paths and what stands in front of them -/

/-- The text is a path in the identifier of a file: it starts with a slash that does not start a
host, and neither an entry nor a query nor a fragment starts in it. -/
structure RootedPath (p : Text) : Prop where
  rooted : ∃ r, p = '/' :: r ∧ r.head? ≠ some '/'
  clean : Clean p
  no_mark : '!' ∉ p
  no_query : '?' ∉ p
  no_fragment : '#' ∉ p

/-- What stands in front of the path in the identifier of a file. -/
inductive FileFront : Text → Prop
  /-- The scheme alone. -/
  | scheme : FileFront "file:".toList
  /-- The scheme and a host, which may be empty. -/
  | host {host : Text} (h : ∀ c ∈ host, c.isAlphanum ∨ c = '-' ∨ c = '.') :
      FileFront ("file://".toList ++ host)

namespace RootedPath

theorem fits (hp : RootedPath p) : Fits p := ⟨hp.clean, hp.no_fragment⟩

/-- Behind the scheme alone, all of the path is read as a path. -/
theorem leadsTo (hp : RootedPath p) : LeadsTo ("file:".toList ++ p) (Percent.decode p) := by
  obtain ⟨r, rfl, hr⟩ := hp.rooted
  have hstart : Fits "file:".toList := Fits.of_all (by decide) (by decide)
  have hmark : '!' ∉ "file:".toList ++ '/' :: r := by
    rw [List.mem_append, not_or]
    exact ⟨by decide, hp.no_mark⟩
  have hquery : '?' ∉ "file:".toList ++ '/' :: r := by
    rw [List.mem_append, not_or]
    exact ⟨by decide, hp.no_query⟩
  have hbare : Bare ('/' :: r) := ⟨hp.clean.legal, hp.no_query, hp.no_fragment⟩
  have hhost : ∀ t, '/' :: r ≠ '/' :: '/' :: t := by
    intro t ht
    rw [(List.cons.inj ht).2] at hr
    exact hr rfl
  refine ⟨hstart.append hp.fits, hquery, hmark, ⟨'/' :: r, List.cons_ne_nil _ _, rfl⟩, ?_⟩
  have harchive : archive ("file:".toList ++ '/' :: r) = "file".toList ++ ':' :: '/' :: r :=
    archive_eq_self hmark
  rw [archivePath_file harchive, hbare.filePath_eq_self hhost]
  rfl

end RootedPath

theorem FileFront.leadsTo (hfront : FileFront front) (hp : RootedPath p) :
    LeadsTo (front ++ p) (Percent.decode p) := by
  cases hfront with
  | scheme => exact hp.leadsTo
  | @host host h =>
    obtain ⟨r, rfl, -⟩ := hp.rooted
    have hplain : PlainHost host := by
      intro c hc
      rcases h c hc with h | rfl | rfl
      · exact .inl h
      · exact .inr (by decide)
      · exact .inr (by decide)
    have hclean : Clean host := by
      refine Clean.of_not_mem hplain.legal fun hm => ?_
      rcases h '%' hm with h | h | h <;> exact absurd h (by decide)
    have hquery : '?' ∉ r := fun hm => hp.no_query (List.mem_cons_of_mem _ hm)
    have hmark : '!' ∉ r := fun hm => hp.no_mark (List.mem_cons_of_mem _ hm)
    exact hplain.leadsTo hclean hp.fits hquery hmark

/-! ### Entries behind identifiers -/

/-- An identifier of a file leads to the same path with an entry behind it, even one that a query or
a fragment cuts off. -/
theorem LeadsTo.archivePath_append (h : LeadsTo uri path) (inner : Option Text) :
    archivePath (before '?' (before '#' (uri ++ (inner.map ('!' :: ·)).getD []))) =
      .ok (plainDrive path) := by
  rw [before_append h.fits.no_fragment, before_append h.no_query, ← h.archivePath_eq]
  refine archivePath_congr ?_
  cases inner with
  | none =>
    change archive (uri ++ []) = _
    rw [List.append_nil]
  | some r =>
    change archive (uri ++ before '?' (before '#' ('!' :: r))) = _
    rw [before_cons_of_ne (by decide), before_cons_of_ne (by decide),
      archive_append_cons h.no_mark, archive_eq_self h.no_mark]

private theorem LeadsTo.clean_append_iff (h : LeadsTo uri path) (inner : Option Text) :
    Clean (uri ++ (inner.map ('!' :: ·)).getD []) ↔ ∀ r ∈ inner, Clean r := by
  cases inner with
  | none =>
    change Clean (uri ++ []) ↔ _
    rw [List.append_nil]
    exact iff_of_true h.fits.clean nofun
  | some r =>
    change Clean (uri ++ '!' :: r) ↔ _
    rw [Clean.append_cons_iff (by decide) (by decide) (by decide), and_iff_right h.fits.clean]
    exact ⟨fun hr s hs => Option.some.inj hs ▸ hr, fun hr => hr r rfl⟩

end Locator

namespace Reference

open Locator (namesDrive plainDrive plainDrive_eq LeadsTo RootedPath FileFront)

variable {table : FlagTable} {uri path : Text}

/-- Behind the identifier of a file, an entry decides whether there is a reference, and does not
change where its archive is. -/
theorem parse_leadsTo (h : LeadsTo uri path) (inner : Option Text) :
    ((∃ u, parse table (scheme ++ ':' :: (uri ++ (inner.map ('!' :: ·)).getD [])) = .ok u) ↔
      ∀ r ∈ inner, Clean r) ∧
    ∀ u, parse table (scheme ++ ':' :: (uri ++ (inner.map ('!' :: ·)).getD [])) = .ok u →
      u.archivePath = .ok (plainDrive path) := by
  rw [← h.clean_append_iff inner]
  refine ⟨⟨?_, fun hclean => ?_⟩, fun u hu => ?_⟩
  · rintro ⟨u, hu⟩
    obtain ⟨rest, hrest, hclean, -⟩ := parse_eq_ok_iff.mp hu
    exact hclean.of_append_cons_right
  · refine ⟨_, parse_scheme_append hclean ?_⟩
    rw [before_append h.fits.no_fragment]
    exact List.append_ne_nil_of_left_ne_nil h.ne_nil _
  · obtain ⟨rest, hrest, -, -, rfl⟩ := parse_eq_ok_iff.mp hu
    obtain rfl := (List.cons.inj (List.append_cancel_left hrest)).2
    exact h.archivePath_append inner

/-- **Forms of file identifiers.** A path that starts with a single slash is read alike behind the
scheme, behind two slashes and behind a host: with an entry or without one, the reference is refused
only for what is wrong with the entry, and its archive is at the unescaped path, without the slash
before a drive. Marks that end other parts of identifiers, and characters beyond ASCII, stay where
they are in the path. -/
theorem archivePath_file_forms (table : FlagTable) {p : Text} (hp : RootedPath p)
    (inner : Option Text) : ∃ path,
      path = (if namesDrive (Percent.decode p) then (Percent.decode p).tail
        else Percent.decode p) ∧
      (∀ front, FileFront front →
        ((∃ u, parse table (scheme ++ ':' :: (front ++ p ++ (inner.map ('!' :: ·)).getD [])) =
          .ok u) ↔ ∀ r ∈ inner, Clean r) ∧
        ∀ u, parse table (scheme ++ ':' :: (front ++ p ++ (inner.map ('!' :: ·)).getD [])) =
          .ok u → u.archivePath = .ok path) ∧
      ∀ a c b, p = a ++ c :: b → c ∈ [';', '@', ':', '['] ∨ 128 ≤ c.toNat →
        ∃ kept, path = kept ++ c :: Percent.decode b ∧
          (kept = Percent.decode a ∨ '/' :: kept = Percent.decode a) := by
  refine ⟨plainDrive (Percent.decode p), plainDrive_eq _, fun front hfront => ?_, ?_⟩
  · exact parse_leadsTo (hfront.leadsTo hp) inner
  · rintro a c b rfl hc
    obtain ⟨hpercent, hslash, hhex⟩ := Locator.kept_of_mark_or_wide hc
    rw [Percent.decode_append_cons hpercent hhex]
    exact Locator.exists_plainDrive_append_cons hslash _ _

theorem archivePath_file_forms_drive : ∃ u v w : Reference .standard,
    parse .standard "kls:file:/C%3A/my%20lib/a;b@[é.jar!/B.class?source=true".toList = .ok u ∧
      parse .standard "kls:file:///C%3A/my%20lib/a;b@[é.jar!/B.class?source=true".toList = .ok v ∧
      parse .standard "kls:file://h-1/C%3A/my%20lib/a;b@[é.jar!/B.class?source=true".toList =
        .ok w ∧
      u.archivePath = .ok "C:/my lib/a;b@[é.jar".toList ∧
      v.archivePath = .ok "C:/my lib/a;b@[é.jar".toList ∧
      w.archivePath = .ok "C:/my lib/a;b@[é.jar".toList := by
  have hp : RootedPath "/C%3A/my%20lib/a;b@[é.jar".toList :=
    ⟨⟨_, rfl, by decide⟩, ⟨Identifier.legal_of_all (by decide),
      (Identifier.badEscape?_eq_none_iff (i := 0)).mp (by decide)⟩, by decide, by decide,
      by decide⟩
  obtain ⟨path, hpath, hforms, -⟩ :=
    archivePath_file_forms .standard hp (some "/B.class?source=true".toList)
  have hdecoded : path = "C:/my lib/a;b@[é.jar".toList := hpath.trans (by decide)
  have hentry : ∀ r ∈ some "/B.class?source=true".toList, Clean r :=
    fun r hr => Option.some.inj hr ▸ Clean.of_all (by decide) (by decide)
  have hread : ∀ {front : Text} (s : Text), FileFront front →
      scheme ++ ':' :: (front ++ "/C%3A/my%20lib/a;b@[é.jar!/B.class?source=true".toList) = s →
      ∃ u : Reference .standard, parse .standard s = .ok u ∧
        u.archivePath = .ok "C:/my lib/a;b@[é.jar".toList := by
    rintro front s hfront rfl
    obtain ⟨u, hu⟩ := (hforms front hfront).1.mpr hentry
    have hpathu := (hforms front hfront).2 u hu
    rw [List.append_assoc] at hu
    exact ⟨u, hu, hdecoded ▸ hpathu⟩
  have hempty : FileFront ("file://".toList ++ []) := .host nofun
  have hhost : ∀ c ∈ "h-1".toList, c.isAlphanum ∨ c = '-' ∨ c = '.' :=
    fun c hc => (Identifier.Plain.of_all (by decide) c hc).imp_right .inl
  obtain ⟨u, hu, hpathu⟩ :=
    hread "kls:file:/C%3A/my%20lib/a;b@[é.jar!/B.class?source=true".toList .scheme (by decide)
  obtain ⟨v, hv, hpathv⟩ :=
    hread "kls:file:///C%3A/my%20lib/a;b@[é.jar!/B.class?source=true".toList hempty (by decide)
  obtain ⟨w, hw, hpathw⟩ :=
    hread "kls:file://h-1/C%3A/my%20lib/a;b@[é.jar!/B.class?source=true".toList (.host hhost)
      (by decide)
  exact ⟨u, v, w, hu, hv, hw, hpathu, hpathv, hpathw⟩

end Reference

end EntryRef
