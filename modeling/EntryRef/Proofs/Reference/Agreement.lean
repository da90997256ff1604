import EntryRef.Proofs.Reference.RoundTrip
import EntryRef.Reference.Normal

/-!
# Normalizing agrees with reading

`Reference.normalizeText` looks for faults and splits the scheme off before it reads a text that it
has put together itself: the specific part without its fragment behind the scheme of references, or
the whole identifier of a file behind it. The text that is read in the end is therefore another one
than the text that was looked at. It has no faults of its own, though: cutting at a number sign
tears no escape apart and leaves something to read, since that is what is looked for, and the scheme
of references in front adds neither an escape nor an illegal character.

## Main statements

* `Reference.parse_without_fragment`, `Reference.parse_file`: what is put together is always read,
* `Reference.normalize_text_agrees`: normalizing a text and reading it agree.
-/

namespace EntryRef.Reference

open Text
open Identifier (Clean fault? splitScheme)

variable {table : FlagTable} {s rest : Text} {why : Identifier.Fault}

/-! ### Faults -/

theorem parse_of_fault? (table : FlagTable) (h : fault? s = some why) :
    parse table s = .error (.fault s why) := by
  rw [parse, h]

theorem normalizeText_of_fault? (table : FlagTable) (h : fault? s = some why) :
    normalizeText table s = .error (.fault s why) := by
  rw [normalizeText, h]

/-- What is normalized has no faults. -/
theorem fault?_eq_none_of_normalizeText {answer : Option (Reference table)}
    (h : normalizeText table s = .ok answer) : fault? s = none := by
  cases hfault : fault? s with
  | some why =>
    rw [normalizeText_of_fault? table hfault] at h
    cases h
  | none => rfl

/-! ### The texts that are put together -/

/-- The fragment does not matter for what is read. -/
theorem ofSpecific_before (table : FlagTable) (rest : Text) :
    ofSpecific table (before '#' rest) = ofSpecific table rest := by
  have hcut : before '#' (before '#' rest) = before '#' rest :=
    before_eq_self (not_mem_before '#' rest)
  simp only [ofSpecific, hcut]

/-- A reference without faults is read, with and without its fragment, as the same. -/
theorem parse_without_fragment (table : FlagTable) (h : fault? s = none)
    (hscheme : splitScheme s = (some scheme, rest)) :
    parse table s = .ok (ofSpecific table rest) ∧
      parse table (scheme ++ ':' :: before '#' rest) = .ok (ofSpecific table rest) := by
  obtain rfl : scheme ++ ':' :: rest = s := Identifier.append_of_splitScheme hscheme
  obtain ⟨hclean, hne⟩ := fault?_scheme_append.mp h
  have hrest : Clean rest := hclean.of_append_cons_right
  refine ⟨parse_scheme_append hrest hne, ?_⟩
  have hcut : before '#' (before '#' rest) = before '#' rest :=
    before_eq_self (not_mem_before '#' rest)
  rw [parse_scheme_append (hrest.before (by decide)) (hcut.symm ▸ hne), ofSpecific_before]

/-- The identifier of a file without faults is read behind the scheme of references. -/
theorem parse_file (table : FlagTable) (h : fault? s = none)
    (hscheme : splitScheme s = (some "file".toList, rest)) :
    parse table (scheme ++ ':' :: s) = .ok (ofSpecific table s) := by
  obtain ⟨-, hclean, -⟩ := Identifier.fault?_eq_none_iff.mp h
  -- the name of the scheme is there before any fragment
  have hne : before '#' s ≠ [] := by
    rw [← Identifier.append_of_splitScheme hscheme, before_append (by decide)]
    exact List.append_ne_nil_of_left_ne_nil (by decide) _
  exact parse_scheme_append hclean hne

/-! ### Normalizing -/

theorem normalizeText_of_scheme (table : FlagTable) (h : fault? s = none)
    (hscheme : splitScheme s = (some scheme, rest)) :
    normalizeText table s = .ok (some (ofSpecific table rest)) := by
  rw [normalizeText, h, hscheme]
  simp only [if_true, (parse_without_fragment table h hscheme).2]
  rfl

theorem normalizeText_of_file (table : FlagTable) (h : fault? s = none)
    (hscheme : splitScheme s = (some "file".toList, rest)) :
    normalizeText table s = .ok (some (ofSpecific table s)) := by
  have hother : some "file".toList ≠ some scheme := by decide
  rw [normalizeText, h, hscheme]
  simp only [if_neg hother, if_true, parse_file table h hscheme]
  rfl

private theorem normalizeText_of_other (table : FlagTable) (h : fault? s = none)
    (hscheme : (splitScheme s).1 ≠ some scheme) (hfile : (splitScheme s).1 ≠ some "file".toList) :
    normalizeText table s = .ok none := by
  rw [normalizeText, h]
  simp only [if_neg hscheme, if_neg hfile]

/-- What a text without faults is normalized to depends on its scheme. -/
theorem normalizeText_cases (table : FlagTable) (h : fault? s = none) :
    (∃ rest, splitScheme s = (some scheme, rest) ∧
      normalizeText table s = .ok (some (ofSpecific table rest))) ∨
    (∃ rest, splitScheme s = (some "file".toList, rest) ∧
      normalizeText table s = .ok (some (ofSpecific table s))) ∨
    normalizeText table s = .ok none := by
  rcases hsplit : splitScheme s with ⟨found, rest⟩
  by_cases hscheme : found = some scheme
  · subst hscheme
    exact .inl ⟨rest, rfl, normalizeText_of_scheme table h hsplit⟩
  by_cases hfile : found = some "file".toList
  · subst hfile
    exact .inr (.inl ⟨rest, rfl, normalizeText_of_file table h hsplit⟩)
  · exact .inr (.inr (normalizeText_of_other table h (by rwa [hsplit]) (by rwa [hsplit])))

/-- Without faults there is nothing to fail. -/
theorem normalizeText_ne_error (h : fault? s = none) (e : Malformed) :
    normalizeText table s ≠ .error e := by
  rcases normalizeText_cases table h with ⟨rest, -, hn⟩ | ⟨rest, -, hn⟩ | hn
  · rw [hn]
    exact nofun
  · rw [hn]
    exact nofun
  · rw [hn]
    exact nofun

/-- What is found by normalizing is read, too, where the scheme says that it is to be. -/
theorem parse_of_normalizeText {u : Reference table} (h : fault? s = none)
    (hu : normalizeText table s = .ok (some u)) :
    ((splitScheme s).1 = some scheme ∧ parse table s = .ok u) ∨
      ((splitScheme s).1 = some "file".toList ∧ parse table (scheme ++ ':' :: s) = .ok u) := by
  rcases normalizeText_cases table h with ⟨rest, hs, hn⟩ | ⟨rest, hs, hn⟩ | hn
  · rw [← Option.some.inj (Except.ok.inj (hn.symm.trans hu))]
    exact .inl ⟨congrArg Prod.fst hs, (parse_without_fragment table h hs).1⟩
  · rw [← Option.some.inj (Except.ok.inj (hn.symm.trans hu))]
    exact .inr ⟨congrArg Prod.fst hs, parse_file table h hs⟩
  · exact nomatch hn.symm.trans hu

/-- **Agreement.** A text that is read as a reference is normalized to it. A text that is normalized
to a reference is read as it, either as it stands or, if its scheme is that of files, behind the
scheme of references. Normalizing fails if and only if the text has a fault, and reading it then
fails in the same way. -/
theorem normalize_text_agrees (table : FlagTable) (cwd : Path.Posix) (s : Text) :
    (∀ u : Reference table, parse table s = .ok u → normalize cwd (.text s) = .ok (some u)) ∧
    (∀ u : Reference table, normalize cwd (.text s) = .ok (some u) →
      ((splitScheme s).1 = some scheme ∧ parse table s = .ok u) ∨
      ((splitScheme s).1 = some "file".toList ∧ parse table (scheme ++ ':' :: s) = .ok u)) ∧
    ((∃ e, normalize cwd (.text s : Identifying table) = .error e) ↔ fault? s ≠ none) ∧
    (∀ e, normalize cwd (.text s : Identifying table) = .error e → parse table s = .error e) := by
  have hnormalize : normalize cwd (.text s : Identifying table) = normalizeText table s := rfl
  rw [hnormalize]
  cases hfault : fault? s with
  | some why =>
    rw [normalizeText_of_fault? table hfault, parse_of_fault? table hfault]
    refine ⟨nofun, nofun, ?_, fun e h => ?_⟩
    · exact iff_of_true ⟨_, rfl⟩ (Option.some_ne_none why)
    · exact congrArg Except.error (Except.error.inj h)
  | none =>
    have hnot : ¬(none : Option Identifier.Fault) ≠ none := fun h => h rfl
    refine ⟨fun u h => ?_, fun u h => parse_of_normalizeText hfault h, ?_, fun e h => ?_⟩
    · obtain ⟨rest, rfl, -, -, rfl⟩ := parse_eq_ok_iff.mp h
      exact normalizeText_of_scheme table hfault (splitScheme_scheme_append rest)
    · exact iff_of_false (fun ⟨e, he⟩ => normalizeText_ne_error hfault e he) hnot
    · exact absurd h (normalizeText_ne_error hfault e)

/-- A fragment goes either way. Where it is all that follows the scheme of files, that is a fault,
and one that reading does not get beyond either. -/
theorem normalize_text_agrees_fragment : ∃ u : Reference .standard,
    normalize (.ofText "/work".toList) (.text "file:a.jar!/B.kt?source=TRUE#x".toList) =
        .ok (some u) ∧ u.toText = "kls:file:a.jar!/B.kt?source=true".toList ∧
      parse .standard "kls:file:a.jar!/B.kt?source=TRUE#x".toList = .ok u ∧
      parse .standard "file:#x".toList = .error (.fault "file:#x".toList (.noSpecificPart 5)) := by
  obtain ⟨-, hread, -, -⟩ := normalize_text_agrees .standard (.ofText "/work".toList)
    "file:a.jar!/B.kt?source=TRUE#x".toList
  obtain ⟨-, -, -, hrefused⟩ := normalize_text_agrees .standard (.ofText "/work".toList)
    "file:#x".toList
  let u : Reference .standard :=
    ⟨"file:a.jar!/B.kt".toList, ⟨[some (.truth true)], rfl⟩, by decide⟩
  have hnormalize : normalize (.ofText "/work".toList)
      (.text "file:a.jar!/B.kt?source=TRUE#x".toList) = .ok (some u) := rfl
  have hother : (splitScheme "file:a.jar!/B.kt?source=TRUE#x".toList).1 ≠ some scheme := by decide
  refine ⟨u, hnormalize, rfl, ?_, hrefused _ rfl⟩
  exact ((hread _ hnormalize).resolve_left fun h => hother h.1).2

end EntryRef.Reference
