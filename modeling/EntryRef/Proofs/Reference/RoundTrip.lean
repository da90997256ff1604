import EntryRef.Proofs.Flag.Query
import EntryRef.Reference.Basic

/-!
# References are read back

A reference that comes out of `Reference.parse` is `Sound`: its locator has no faults and no number
sign, and its flags keep their values. A sound reference is read back from its text, although the
text differs from the one that was read first: the fragment, unknown tokens and other spellings of
values are gone.

There is one exception. Where the locator is empty and no flag is set, the text is the bare scheme,
which is refused, as there is nothing behind it (`parse_toText`). Such a reference does come out of
`parse`, since only the number sign is looked for where emptiness is tested, and a query behind the
scheme passes for something.

## Main statements

* `Reference.parse_eq_ok_iff`: what is read, and as what,
* `Reference.sound_of_parse`: what is read is sound,
* `Reference.Sound.parse_toText`: sound references are read back, but for the exception.
-/

namespace EntryRef.Reference

open Text
open Identifier (Clean)

variable {table : FlagTable} {s : Text} {u : Reference table}

/-! ### What is read -/

private theorem not_mem_scheme : ':' ∉ scheme := by decide

private theorem isScheme_scheme : Identifier.isScheme scheme := by decide

/-- A text has no faults behind the scheme of references if its characters are in order and
something stands before the fragment. -/
theorem fault?_scheme_append {rest : Text} :
    Identifier.fault? (scheme ++ ':' :: rest) = none ↔
      Clean (scheme ++ ':' :: rest) ∧ before '#' rest ≠ [] := by
  rw [Identifier.fault?_eq_none_iff, after?_append_cons not_mem_scheme,
    before_append_cons not_mem_scheme]
  constructor
  · rintro ⟨-, hclean, hrest⟩
    exact ⟨hclean, (hrest rest rfl).2 isScheme_scheme⟩
  · rintro ⟨hclean, hrest⟩
    refine ⟨List.cons_ne_nil _ _, hclean, fun r hr => ?_⟩
    obtain rfl : rest = r := Option.some.inj hr
    exact ⟨List.cons_ne_nil _ _, fun _ => hrest⟩

/-- The scheme is found in front of its colon, whatever follows. -/
theorem splitScheme_scheme_append (rest : Text) :
    Identifier.splitScheme (scheme ++ ':' :: rest) = (some scheme, rest) :=
  Identifier.splitScheme_append_cons ⟨isScheme_scheme, not_mem_scheme⟩ rest

/-- References are read from clean texts that start with the scheme of references and have something
before the fragment. -/
theorem parse_eq_ok_iff : parse table s = .ok u ↔ ∃ rest, s = scheme ++ ':' :: rest ∧ Clean s ∧
    before '#' rest ≠ [] ∧ u = ofSpecific table rest := by
  constructor
  · intro h
    rw [parse] at h
    split at h
    · cases h
    next hfault =>
    split at h
    · next found rest hsplit =>
      split at h
      · next hfound =>
        have hs : scheme ++ ':' :: rest = s := by
          rw [← hfound]
          exact Identifier.append_of_splitScheme hsplit
        rw [← hs] at hfault
        obtain ⟨hclean, hne⟩ := fault?_scheme_append.mp hfault
        exact ⟨rest, hs.symm, hs ▸ hclean, hne, (Except.ok.inj h).symm⟩
      · cases h
    · cases h
  · rintro ⟨rest, rfl, hclean, hne, rfl⟩
    rw [parse, fault?_scheme_append.mpr ⟨hclean, hne⟩, splitScheme_scheme_append]
    exact if_pos rfl

/-- What stands behind the scheme is read if it is clean, and not only a fragment. -/
theorem parse_scheme_append {rest : Text} (hclean : Clean rest) (hne : before '#' rest ≠ []) :
    parse table (scheme ++ ':' :: rest) = .ok (ofSpecific table rest) := by
  have hscheme : Clean (scheme ++ [':']) := Clean.of_all (by decide) (by decide)
  refine parse_eq_ok_iff.mpr ⟨rest, rfl, ?_, hne, rfl⟩
  rw [List.append_cons]
  exact hscheme.append hclean

/-- Nothing is read from the bare scheme. -/
theorem parse_scheme (table : FlagTable) : parse table (scheme ++ [':']) =
    .error (.fault (scheme ++ [':']) (.noSpecificPart (scheme.length + 1))) := by
  have hfault : Identifier.fault? (scheme ++ [':']) =
      some (.noSpecificPart (scheme.length + 1)) := by
    decide
  rw [parse, hfault]

theorem toText_eq (u : Reference table) :
    u.toText = scheme ++ ':' :: (u.base ++ u.flags.toQuery) :=
  List.append_assoc _ _ _

/-! ### Sound references -/

/-- What holds of every reference that is read. -/
structure Sound (u : Reference table) : Prop where
  /-- The locator has no faults. -/
  clean : Clean u.base
  /-- The locator ends where a fragment starts. -/
  no_fragment : '#' ∉ u.base
  /-- The flags keep their values. -/
  kept : u.flags.Kept

private theorem sound_ofSpecific (ht : table.Lawful) {rest : Text} (h : Clean rest) :
    (ofSpecific table rest).Sound where
  clean := (h.before (by decide)).before (by decide)
  no_fragment hm := not_mem_before '#' rest (before_subset '?' _ hm)
  kept := Flags.kept_ofQuery ht _

/-- A reference that was read is sound. -/
theorem sound_of_parse (ht : table.Lawful) (h : parse table s = .ok u) : u.Sound := by
  obtain ⟨rest, rfl, hclean, -, rfl⟩ := parse_eq_ok_iff.mp h
  exact sound_ofSpecific ht hclean.of_append_cons_right

namespace Sound

private theorem clean_specific (hu : u.Sound) (ht : table.Lawful) :
    Clean (u.base ++ u.flags.toQuery) :=
  hu.clean.append (Flags.clean_toQuery ht hu.kept)

/-- A sound reference has no number sign, so that no fragment is cut off. -/
private theorem not_mem_specific (hu : u.Sound) (ht : table.Lawful) :
    '#' ∉ u.base ++ u.flags.toQuery := by
  rw [List.mem_append, not_or]
  exact ⟨hu.no_fragment, Flags.not_mem_toQuery ht hu.kept (by decide)⟩

/-- A sound reference is read back from its locator and its query. -/
theorem ofSpecific_append (hu : u.Sound) (ht : table.Lawful) :
    ofSpecific table (u.base ++ u.flags.toQuery) = u := by
  have hquery : (after? '?' (u.base ++ u.flags.toQuery)).getD [] = joined "&" u.flags.tokens := by
    rw [after?_append u.no_query]
    by_cases hnil : u.flags.tokens = []
    · rw [Flags.toQuery_of_tokens_eq_nil hnil, hnil]
      rfl
    · rw [Flags.toQuery_of_tokens_ne_nil hnil, after?_cons_self, Option.getD_some]
  have hbase : before '?' (u.base ++ u.flags.toQuery) = u.base := by
    rw [before_append u.no_query]
    by_cases hnil : u.flags.tokens = []
    · rw [Flags.toQuery_of_tokens_eq_nil hnil, before_nil, List.append_nil]
    · rw [Flags.toQuery_of_tokens_ne_nil hnil, before_cons_self, List.append_nil]
  -- the first number sign would start a fragment, and there is none
  have hfragment := before_eq_self (hu.not_mem_specific ht)
  ext1
  · change before '?' (before '#' (u.base ++ u.flags.toQuery)) = u.base
    rw [hfragment, hbase]
  · change Flags.ofQuery table ((after? '?' (before '#' (u.base ++ u.flags.toQuery))).getD []) =
      u.flags
    rw [hfragment, hquery, Flags.ofQuery_joined_tokens ht hu.kept]

/-- Nothing is written behind the scheme where the locator is empty and no flag is set, and only
there. -/
theorem specific_eq_nil_iff (hu : u.Sound) (ht : table.Lawful) :
    u.base ++ u.flags.toQuery = [] ↔ u.base = [] ∧ u.flags = .none table := by
  rw [List.append_eq_nil_iff, ← Flags.tokens_eq_nil_iff ht hu.kept]
  refine and_congr_right fun _ => ⟨fun h => ?_, Flags.toQuery_of_tokens_eq_nil⟩
  by_contra hne
  rw [Flags.toQuery_of_tokens_ne_nil hne] at h
  exact List.cons_ne_nil _ _ h

/-- A sound reference is read back from its text unless it is empty. -/
theorem parse_toText (hu : u.Sound) (ht : table.Lawful)
    (hne : ¬(u.base = [] ∧ u.flags = .none table)) : parse table u.toText = .ok u := by
  have hspecific : before '#' (u.base ++ u.flags.toQuery) ≠ [] := by
    rw [before_eq_self (hu.not_mem_specific ht), Ne, hu.specific_eq_nil_iff ht]
    exact hne
  rw [toText_eq, parse_scheme_append (hu.clean_specific ht) hspecific, hu.ofSpecific_append ht]

end Sound

/-! ### Reading what has been written -/

/-- **Round trip.** A reference that was read, whatever the tokens of its query, is read back from
its text, unless its locator is empty and none of its flags is set. Such a reference is written as
the bare scheme, and this is refused. -/
theorem parse_toText_of_parse (ht : table = .standard ∨ table = .extended)
    (h : parse table s = .ok u) : parse table u.toText =
      if u.base = [] ∧ u.flags = .none table then
        .error (.fault (scheme ++ [':']) (.noSpecificPart (scheme.length + 1)))
      else .ok u := by
  have hlawful : table.Lawful := FlagTable.lawful_of_known ht
  have hu : u.Sound := sound_of_parse hlawful h
  split
  · next hempty =>
    rw [toText_eq, (hu.specific_eq_nil_iff hlawful).mpr hempty, parse_scheme]
  · next hne => exact hu.parse_toText hlawful hne

/-- The depth is written in another way than it is read, and unknown and repeated tokens go. -/
theorem parse_toText_of_spellings : ∃ u : Reference .extended,
    parse .extended "kls:a.jar!/B%20.kt?depth=+0_7&source=no&x=1&source=TRUE#c".toList = .ok u ∧
      u.toText = "kls:a.jar!/B%20.kt?source=true&depth=7".toList ∧
      parse .extended u.toText = .ok u := by
  have hparse :
      parse .extended "kls:a.jar!/B%20.kt?depth=+0_7&source=no&x=1&source=TRUE#c".toList =
        .ok (ofSpecific _ "a.jar!/B%20.kt?depth=+0_7&source=no&x=1&source=TRUE".toList) := rfl
  refine ⟨_, hparse, rfl, ?_⟩
  rw [parse_toText_of_parse (.inr rfl) hparse]
  exact if_neg (by decide)

/-- A reference whose only token is unknown is read, and its text is not. -/
theorem parse_toText_of_unknown_flag : ∃ u : Reference .standard,
    parse .standard "kls:?foo=1".toList = .ok u ∧ u.toText = "kls:".toList ∧
      parse .standard u.toText = .error (.fault "kls:".toList (.noSpecificPart 4)) :=
  ⟨ofSpecific _ "?foo=1".toList, rfl, rfl, rfl⟩

end EntryRef.Reference
