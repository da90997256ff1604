import EntryRef.Locator
import EntryRef.Proofs.Identifier.Grammar

/-!
# Splitting off the scheme

The scheme of an identifier stands in front of the first colon. Splitting should find it there if
and only if that text is the name of a scheme (`SplitsByName`). But it takes loose names for schemes
too, those that have a line break behind them.

In a text that was searched for faults there is no line break. A locator that is given as it is may
have one, and then its archive is what stands behind the colon, also where the loose name is that of
files (`Locator.archivePath_of_looseName`).

Main statement: `Identifier.splitScheme_grammar`.
-/

namespace EntryRef

open Text

namespace Identifier

variable {s name rest : Text} {c : Char}

/-! ### Names -/

/-- A character that is neither a letter nor a digit nor one of three marks is in no name. -/
theorem SchemeName.not_mem (h : SchemeName s) (hc : ¬(c.isAlphanum ∨ c ∈ ['+', '.', '-'])) :
    c ∉ s := by
  cases s with
  | nil => exact List.not_mem_nil
  | cons d r =>
    intro hm
    rcases List.mem_cons.mp hm with rfl | hm
    · exact hc (.inl (Bool.or_eq_true_iff.mpr (.inl h.1)))
    · exact hc (h.2 c hm)

private theorem LooseName.not_schemeName (h : LooseName s) : ¬SchemeName s := by
  obtain ⟨name, -, rfl⟩ := h
  exact fun hname => hname.not_mem (by decide) (List.mem_append_right name List.mem_cons_self)

private theorem colon_not_mem_of_isScheme (h : isScheme s) : ':' ∉ s := by
  rcases isScheme_iff.mp h with hname | ⟨name, hname, rfl⟩
  · exact hname.not_mem (by decide)
  · rw [List.mem_append, not_or]
    exact ⟨hname.not_mem (by decide), by decide⟩

/-! ### Splitting -/

/-- What stands in front of a colon is found if and only if it is a name or a loose one. -/
theorem splitScheme_eq_some_iff : splitScheme s = (some name, rest) ↔
    s = name ++ ':' :: rest ∧ (SchemeName name ∨ LooseName name) := by
  rw [← isScheme_iff]
  constructor
  · intro h
    rcases splitScheme_cases s with ⟨found, tail, hsplit, hscheme, hs⟩ | hnone
    · obtain ⟨rfl, rfl⟩ : found = name ∧ tail = rest := by
        rwa [hsplit, Prod.mk.injEq, Option.some.injEq] at h
      exact ⟨hs.symm, hscheme⟩
    · cases hnone.symm.trans h
  · rintro ⟨rfl, hscheme⟩
    exact splitScheme_append_cons ⟨hscheme, colon_not_mem_of_isScheme hscheme⟩ rest

/-- What splitting by the grammar promises. There is a scheme if and only if the text in front of
the first colon is the name of one; then the scheme, a colon and the rest make the text, and without
a scheme all of the text is left. -/
structure SplitsByName (s : Text) (cut : Option Text × Text) : Prop where
  isSome_iff : cut.1.isSome ↔
    ∃ name rest, s = name ++ ':' :: rest ∧ ':' ∉ name ∧ SchemeName name
  append : ∀ name, cut.1 = some name → name ++ ':' :: cut.2 = s
  eq_self : cut.1 = none → cut.2 = s

/-- A scheme is found where the grammar has none. -/
theorem LooseName.not_splitsByName (h : LooseName name) (rest : Text) :
    ¬SplitsByName (name ++ ':' :: rest) (splitScheme (name ++ ':' :: rest)) := by
  intro hlaw
  have hfound : splitScheme (name ++ ':' :: rest) = (some name, rest) :=
    splitScheme_eq_some_iff.mpr ⟨rfl, .inr h⟩
  obtain ⟨other, tail, heq, hcolon, hname⟩ := hlaw.isSome_iff.mp (by rw [hfound]; rfl)
  have hloose : ':' ∉ name := colon_not_mem_of_isScheme (isScheme_iff.mpr (.inr h))
  rw [← eq_of_append_cons_eq hloose hcolon heq] at hname
  exact h.not_schemeName hname

private theorem splitsByName_of_not_loose
    (h : ¬∃ name rest, s = name ++ ':' :: rest ∧ LooseName name) :
    SplitsByName s (splitScheme s) := by
  rcases splitScheme_cases s with ⟨name, rest, hsplit, hscheme, hs⟩ | hnone
  · have hname : SchemeName name :=
      (isScheme_iff.mp hscheme).resolve_right fun hloose => h ⟨name, rest, hs.symm, hloose⟩
    rw [hsplit]
    refine ⟨iff_of_true rfl ⟨name, rest, hs.symm, hname.not_mem (by decide), hname⟩, ?_, nofun⟩
    intro found hfound
    rw [← Option.some.inj hfound, hs]
  · rw [hnone]
    refine ⟨iff_of_false nofun ?_, nofun, fun _ => rfl⟩
    rintro ⟨name, rest, hs, -, hname⟩
    have hfound := splitScheme_eq_some_iff.mpr ⟨hs, .inl hname⟩
    cases hnone.symm.trans hfound

/-- **Splitting off the scheme.** What stands in front of a colon is found if and only if it is a
name or a loose one. So a text is split by the grammar if and only if it does not start with a loose
name and a colon. -/
theorem splitScheme_grammar (s : Text) :
    (∀ name rest, splitScheme s = (some name, rest) ↔
      s = name ++ ':' :: rest ∧ (SchemeName name ∨ LooseName name)) ∧
    (SplitsByName s (splitScheme s) ↔ ¬∃ name rest, s = name ++ ':' :: rest ∧ LooseName name) := by
  refine ⟨fun _ _ => splitScheme_eq_some_iff, ?_, splitsByName_of_not_loose⟩
  rintro h ⟨name, rest, rfl, hloose⟩
  exact hloose.not_splitsByName rest h

example : splitScheme "svn+ssh:host:8080/a.jar".toList =
    (some "svn+ssh".toList, "host:8080/a.jar".toList) := by decide

/-- A line break is taken for a part of the scheme. -/
theorem not_splitsByName_break :
    splitScheme "file\n:/a.jar".toList = (some "file\n".toList, "/a.jar".toList) ∧
      ¬SplitsByName "file\n:/a.jar".toList (splitScheme "file\n:/a.jar".toList) :=
  ⟨by decide, LooseName.not_splitsByName ⟨"file".toList, by decide, rfl⟩ "/a.jar".toList⟩

end Identifier

/-! ### The archive -/

namespace Locator

open Identifier (LooseName)

variable {loc name rest : Text}

/-- Behind a loose name the path of the archive is read as it stands, whatever the name is. -/
theorem archivePath_of_looseName (h : archive loc = name ++ ':' :: rest) (hname : LooseName name) :
    archivePath loc = .ok (Percent.decode rest) := by
  have hother : name ≠ "file".toList := by
    rintro rfl
    exact hname.not_schemeName (by decide)
  rw [archivePath, Identifier.splitScheme_eq_some_iff.mpr ⟨h, .inr hname⟩]
  exact if_neg hother

end Locator

end EntryRef
