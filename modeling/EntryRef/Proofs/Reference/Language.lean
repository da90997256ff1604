import EntryRef.Proofs.Identifier.Grammar
import EntryRef.Proofs.Reference.Agreement

/-!
# The languages of reading and of normalizing

Which texts are read as references, and as which? A text is `Spelled` as a reference if the scheme
stands in front of something that is not only a fragment, and if its characters are in order, those
of the fragment included. What stands in front of the first question mark or number sign is then the
locator. A question mark starts a query only if it is the first of the two, and the query ends at
the number sign (`ReadFrom`).

Normalizing takes texts with any scheme, or with none, unless they break the rules for identifiers.
The rules that are kept in mind are not quite those that are checked: a text before the first colon
that is not the name of a scheme is let pass, as if the identifier had no scheme, unless it is
empty.

## Main statements

* `Reference.parse_language`: what is spelled as a reference is read, and nothing else,
* `Reference.normalize_language`: what normalizing refuses and what it leaves to others,
* `Reference.normalize_illNamed`: an identifier that is refused by the stricter rules only.
-/

namespace EntryRef.Reference

open Text
open Identifier (Barred Breaks Clean Escapes IllFormed IllNamed Incomplete SchemeName fault?
  splitScheme)

variable {table : FlagTable} {s t : Text} {u : Reference table}

/-! ### Reading -/

/-- The text is the scheme of references in front of `t`, and it keeps the rules. -/
structure Spelled (s t : Text) : Prop where
  starts : s = scheme ++ ':' :: t
  ne_nil : before '#' t ≠ []
  legal : ∀ c ∈ s, ¬Barred c
  escapes : Escapes s

/-- The reference has the parts that are written in `t`: the locator in front of the first question
mark or number sign and, if it is a question mark, the flags of the query up to a number sign. -/
structure ReadFrom (u : Reference table) (t : Text) : Prop where
  base : u.base = t.takeWhile fun c => c != '?' && c != '#'
  query : ∀ rest, t = u.base ++ '?' :: rest → u.flags = .ofQuery table (before '#' rest)
  no_query : (∀ rest, t ≠ u.base ++ '?' :: rest) → u.flags = .none table

private theorem spelled_iff :
    Spelled s t ↔ s = scheme ++ ':' :: t ∧ Clean s ∧ before '#' t ≠ [] := by
  rw [Identifier.clean_iff]
  constructor
  · exact fun h => ⟨h.starts, ⟨h.legal, h.escapes⟩, h.ne_nil⟩
  · exact fun h => ⟨h.1, h.2.2, h.2.1.1, h.2.1.2⟩

/-- Whichever of two characters comes first, the text is cut there. -/
theorem before_before (c d : Char) (t : Text) :
    before c (before d t) = t.takeWhile fun x => x != c && x != d := by
  rw [before, before, List.takeWhile_takeWhile]
  simp only [Bool.decide_and, Bool.decide_eq_true]

private theorem readFrom_ofSpecific (table : FlagTable) (t : Text) :
    (ofSpecific table t).ReadFrom t where
  base := before_before '?' '#' t
  query rest h := by
    have hbase : '?' ∉ before '?' (before '#' t) := not_mem_before '?' _
    have hfragment : '#' ∉ before '?' (before '#' t) :=
      fun hm => not_mem_before '#' t (before_subset '?' _ hm)
    have hbody : before '#' t = before '?' (before '#' t) ++ '?' :: before '#' rest :=
      calc before '#' t
          = before '#' (before '?' (before '#' t) ++ '?' :: rest) := congrArg (before '#') h
        _ = before '?' (before '#' t) ++ '?' :: before '#' rest := by
          rw [before_append hfragment, before_cons_of_ne (by decide)]
    have hquery : after? '?' (before '#' t) = some (before '#' rest) := by
      rw [hbody]
      exact after?_append_cons hbase _
    simp only [ofSpecific, hquery, Option.getD_some]
  no_query h := by
    have hnone : '?' ∉ before '#' t := by
      intro hm
      obtain ⟨p, r, hp, hfirst⟩ := List.eq_append_cons_of_mem hm
      obtain ⟨rest, hrest⟩ : before '#' t <+: t := List.takeWhile_prefix _
      refine h (r ++ rest) ?_
      have hbase : (ofSpecific table t).base = p := by
        change before '?' (before '#' t) = p
        rw [hp, before_append_cons hfirst]
      rw [hbase, ← List.cons_append, ← List.append_assoc, ← hp, hrest]
    simp only [ofSpecific, after?_eq_none hnone, Option.getD_none]
    rfl

/-- What is not read is refused for a fault or for its scheme. -/
theorem parse_eq_error (h : ∀ u : Reference table, parse table s ≠ .ok u) :
    parse table s = .error (.otherScheme s) ∨ ∃ why, parse table s = .error (.fault s why) := by
  cases hfault : fault? s with
  | some why => exact .inr ⟨why, parse_of_fault? table hfault⟩
  | none =>
    refine .inl ?_
    rw [parse, hfault] at h ⊢
    simp only at h ⊢
    split at h
    · next found specific hsplit =>
      split at h
      · exact absurd rfl (h _)
      · next hother => rw [if_neg hother]
    · rfl

/-- **The language of references.** A text is read if and only if it is spelled as a reference, and
it is read as the reference with the parts that are written. All other texts are refused. -/
theorem parse_language (table : FlagTable) (s : Text) :
    ((∃ u : Reference table, parse table s = .ok u) ↔ ∃ t, Spelled s t) ∧
    (∀ t, Spelled s t → ∃ u : Reference table, parse table s = .ok u ∧ u.ReadFrom t) ∧
    ((¬∃ t, Spelled s t) →
      parse table s = .error (.otherScheme s) ∨ ∃ why, parse table s = .error (.fault s why)) := by
  have hread : ∀ t, Spelled s t → parse table s = .ok (ofSpecific table t) := by
    intro t ht
    obtain ⟨hs, hclean, hne⟩ := spelled_iff.mp ht
    exact parse_eq_ok_iff.mpr ⟨t, hs, hclean, hne, rfl⟩
  have hspelled : ∀ u : Reference table, parse table s = .ok u → ∃ t, Spelled s t := by
    intro u hu
    obtain ⟨t, hs, hclean, hne, -⟩ := parse_eq_ok_iff.mp hu
    exact ⟨t, spelled_iff.mpr ⟨hs, hclean, hne⟩⟩
  refine ⟨⟨fun ⟨u, hu⟩ => hspelled u hu, fun ⟨t, ht⟩ => ⟨_, hread t ht⟩⟩, fun t ht => ?_,
    fun h => ?_⟩
  · exact ⟨_, hread t ht, readFrom_ofSpecific table t⟩
  · exact parse_eq_error fun u hu => h (hspelled u hu)

/-- A question mark behind a number sign starts no query, and a fragment alone is nothing to
read. -/
theorem parse_language_fragment : ∃ u v : Reference .standard,
    parse .standard "kls:a%20b.jar?x&source=TRUE#c?d".toList = .ok u ∧
      u.base = "a%20b.jar".toList ∧ u.flags = .ofQuery _ "x&source=TRUE".toList ∧
      parse .standard "kls:a.jar#c?source=true".toList = .ok v ∧ v.base = "a.jar".toList ∧
      v.flags = .none _ ∧
      ((∃ w : Reference .standard, parse .standard "kls:#c".toList = .ok w) ↔
        ∃ t, Spelled "kls:#c".toList t) ∧
      ¬∃ t, Spelled "kls:#c".toList t := by
  obtain ⟨-, hquery, -⟩ := parse_language .standard "kls:a%20b.jar?x&source=TRUE#c?d".toList
  obtain ⟨-, hnone, -⟩ := parse_language .standard "kls:a.jar#c?source=true".toList
  obtain ⟨hrefused, -, -⟩ := parse_language .standard "kls:#c".toList
  have hclean : Clean "kls:a%20b.jar?x&source=TRUE#c?d".toList :=
    ⟨Identifier.legal_of_all (by decide), (Identifier.badEscape?_eq_none_iff (i := 0)).mp rfl⟩
  obtain ⟨u, hu, hreadU⟩ := hquery "a%20b.jar?x&source=TRUE#c?d".toList
    (spelled_iff.mpr ⟨rfl, hclean, by decide⟩)
  obtain ⟨v, hv, hreadV⟩ := hnone "a.jar#c?source=true".toList
    (spelled_iff.mpr ⟨rfl, Clean.of_all (by decide) (by decide), by decide⟩)
  have hbaseU : u.base = "a%20b.jar".toList := hreadU.base
  have hbaseV : v.base = "a.jar".toList := hreadV.base
  refine ⟨u, v, hu, hbaseU, hreadU.query "x&source=TRUE#c?d".toList (by rw [hbaseU]; rfl), hv,
    hbaseV, hreadV.no_query fun rest h => ?_, hrefused, fun ⟨t, ht⟩ => ?_⟩
  · rw [hbaseV] at h
    have hwhole : "a.jar".toList ++ "#c?source=true".toList = "a.jar".toList ++ '?' :: rest := h
    exact absurd (List.cons.inj (List.append_cancel_left hwhole)).1 (by decide)
  · obtain rfl : t = "#c".toList := (List.append_cancel_left ht.starts.symm |> List.cons.inj).2
    exact ht.ne_nil rfl

/-! ### Normalizing -/

/-- Normalizing fails for faults only. -/
theorem exists_error_normalizeText_iff (table : FlagTable) :
    (∃ e, normalizeText table s = .error e) ↔ Breaks Incomplete s := by
  rw [← Identifier.fault?_ne_none_iff]
  cases hfault : fault? s with
  | some why =>
    exact iff_of_true ⟨_, normalizeText_of_fault? table hfault⟩ (Option.some_ne_none why)
  | none => exact iff_of_false (fun ⟨e, he⟩ => normalizeText_ne_error hfault e he) fun h => h rfl

/-- Without faults, what comes of a text depends on the scheme that it starts with. -/
theorem normalizeText_of_starts (table : FlagTable) (h : fault? s = none) :
    ((∃ u, normalizeText table s = .ok (some u)) ↔
      ∃ rest, s = scheme ++ ':' :: rest ∨ s = "file".toList ++ ':' :: rest) ∧
    ((¬∃ rest, s = scheme ++ ':' :: rest ∨ s = "file".toList ++ ':' :: rest) →
      normalizeText table s = .ok none) := by
  rcases normalizeText_cases table h with ⟨rest, hs, hn⟩ | ⟨rest, hs, hn⟩ | hn
  · have hstarts : s = scheme ++ ':' :: rest := (Identifier.append_of_splitScheme hs).symm
    exact ⟨iff_of_true ⟨_, hn⟩ ⟨rest, .inl hstarts⟩, fun hno => absurd ⟨rest, .inl hstarts⟩ hno⟩
  · have hstarts : s = "file".toList ++ ':' :: rest := (Identifier.append_of_splitScheme hs).symm
    exact ⟨iff_of_true ⟨_, hn⟩ ⟨rest, .inr hstarts⟩, fun hno => absurd ⟨rest, .inr hstarts⟩ hno⟩
  · refine ⟨iff_of_false (fun ⟨u, hu⟩ => ?_) ?_, fun _ => hn⟩
    · exact absurd (Except.ok.inj (hn.symm.trans hu)) nofun
    · rintro ⟨rest, rfl | rfl⟩
      · have hsome := normalizeText_of_scheme table h (splitScheme_scheme_append rest)
        exact absurd (Except.ok.inj (hn.symm.trans hsome)) nofun
      · have hsome := normalizeText_of_file table h
          (Identifier.splitScheme_append_cons (by decide) rest)
        exact absurd (Except.ok.inj (hn.symm.trans hsome)) nofun

/-- **The language of identifiers.** Normalizing refuses a text if and only if it breaks the rules,
among which the one for what stands before the first colon is only that it must not be empty. The
stricter rules refuse exactly the ill-named identifiers besides. What is not refused stands for a
reference if it has the scheme of references or that of files, and is left to others if not. -/
theorem normalize_language (table : FlagTable) (cwd : Path.Posix) (s : Text) :
    ((∃ e, normalize cwd (.text s : Identifying table) = .error e) ↔ Breaks Incomplete s) ∧
    (((∃ e, normalize cwd (.text s : Identifying table) = .error e) ↔ Breaks IllFormed s) ↔
      ¬IllNamed s) ∧
    ((¬∃ e, normalize cwd (.text s : Identifying table) = .error e) →
      ((∃ u : Reference table, normalize cwd (.text s) = .ok (some u)) ↔
        ∃ rest, s = scheme ++ ':' :: rest ∨ s = "file".toList ++ ':' :: rest) ∧
      ((¬∃ rest, s = scheme ++ ':' :: rest ∨ s = "file".toList ++ ':' :: rest) →
        normalize cwd (.text s : Identifying table) = .ok none)) := by
  have hnormalize : normalize cwd (.text s : Identifying table) = normalizeText table s := rfl
  rw [hnormalize, exists_error_normalizeText_iff, Identifier.breaks_illFormed_iff]
  refine ⟨Iff.rfl, ⟨fun h hill => ?_, fun hgood => ?_⟩, fun h => ?_⟩
  · exact hill.not_breaks (h.mpr (.inr hill))
  · exact ⟨.inl, fun h => h.resolve_right hgood⟩
  · rw [← Identifier.fault?_ne_none_iff, Ne, not_not] at h
    exact normalizeText_of_starts table h

/-- A scheme may have marks, a file's identifier a second colon and a fragment; behind the scheme of
references, a fragment alone is not enough. -/
theorem normalize_language_schemes :
    normalize (.ofText "/work".toList) (.text "git+ssh://a.b/c".toList : Identifying .standard) =
        .ok none ∧
      (∃ u : Reference .standard,
        normalize (.ofText "/work".toList) (.text "file:/a:b.jar#c".toList) = .ok (some u)) ∧
      ∃ e, normalize (.ofText "/work".toList) (.text "kls:#c".toList : Identifying .standard) =
        .error e := by
  have hkeeps : ∀ {s : Text}, fault? s = none → ¬Breaks Incomplete s := fun h hbreaks =>
    Identifier.fault?_ne_none_iff.mpr hbreaks h
  obtain ⟨hweb, -, hother⟩ := normalize_language .standard (.ofText "/work".toList)
    "git+ssh://a.b/c".toList
  obtain ⟨hfile, -, happlies⟩ := normalize_language .standard (.ofText "/work".toList)
    "file:/a:b.jar#c".toList
  obtain ⟨hempty, -, -⟩ := normalize_language .standard (.ofText "/work".toList) "kls:#c".toList
  refine ⟨(hother fun h => hkeeps (by decide) (hweb.mp h)).2 ?_, ?_, ?_⟩
  · rintro ⟨rest, h | h⟩
    · cases h
    · cases h
  · exact (happlies fun h => hkeeps (by decide) (hfile.mp h)).1.mpr ⟨_, .inr rfl⟩
  · exact hempty.mpr (.inr (.inl ⟨scheme, "#c".toList, rfl, by decide, .inr ⟨by decide, rfl⟩⟩))

/-- An underscore is in no name of a scheme, and still the identifier is not refused. -/
theorem normalize_illNamed : Breaks IllFormed "a_b:x".toList ∧
    normalize (.ofText "/work".toList) (.text "a_b:x".toList : Identifying .standard) = .ok none :=
  ⟨.inr (.inl ⟨"a_b".toList, "x".toList, rfl, by decide, .inl (by decide)⟩), rfl⟩

end EntryRef.Reference
