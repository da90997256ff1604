import EntryRef.Proofs.Text.Cutting
import Mathlib.Data.List.Infix

/-!
# Cutting around the last occurrence

`aroundLast` cuts a text behind the last place where a separator of any length stands. It reads the
text once and keeps the last place that it has met (`lastIndex_cases`), so that no place is missed
because it overlaps with another one. What is left behind the cut does not contain the separator,
which would stand there at a later place (`LastAt.not_isInfix`).

Where the separator does not stand in the text, the left side should be empty (`CutsAround`). But
the cut is not at the start then. It is as many characters behind the start as the separator has,
less one, so that all texts but the empty one are cut in another place, unless the separator is a
single character. In this case the cut is the one that `throughLast` and `afterLast` make.

Main statements: `aroundLast_law`, `aroundLast_singleton`.
-/

namespace EntryRef.Text

variable {sep p r s : Text} {c : Char}

/-! ### The last place -/

/-- The separator stands between `p` and `r` in the text, and at no later place. -/
structure LastAt (sep p r s : Text) : Prop where
  append : p ++ sep ++ r = s
  last : ∀ q t, q ++ sep ++ t = s → q.length ≤ p.length

theorem LastAt.cons (h : LastAt sep p r s) (c : Char) : LastAt sep (c :: p) r (c :: s) where
  append := by rw [List.cons_append, List.cons_append, h.append]
  last q t ht := by
    cases q with
    | nil => exact Nat.zero_le _
    | cons d q => exact Nat.succ_le_succ (h.last q t (List.cons.inj ht).2)

/-- A separator in front stands at the last place if the rest of the text does not contain it. -/
theorem LastAt.of_not_isInfix (hr : sep ++ r = c :: s) (h : ¬sep <:+: s) :
    LastAt sep [] r (c :: s) where
  append := hr
  last q t ht := by
    cases q with
    | nil => exact Nat.le_refl _
    | cons d q => exact absurd ⟨q, t, (List.cons.inj ht).2⟩ h

/-- The separator does not stand behind its last place again. -/
theorem LastAt.not_isInfix (hsep : sep ≠ []) (h : LastAt sep p r s) : ¬sep <:+: r := by
  rintro ⟨q, t, rfl⟩
  have hlater : p ++ sep ++ q ++ sep ++ t = s := by
    rw [← h.append]
    simp only [List.append_assoc]
  have hle : (p ++ sep ++ q).length ≤ p.length := h.last _ t hlater
  have hpos : 0 < sep.length := List.length_pos_of_ne_nil hsep
  rw [List.length_append, List.length_append] at hle
  omega

/-- The search ends with the last place, or with the one that it started with. -/
theorem lastIndex_cases (hsep : sep ≠ []) (s : Text) (i : Nat) (best : Option Nat) :
    (∃ p r, LastAt sep p r s ∧ lastIndex sep s i best = some (i + p.length)) ∨
      (¬sep <:+: s ∧ lastIndex sep s i best = best) := by
  induction s generalizing i best with
  | nil =>
    refine .inr ⟨fun h => hsep (List.infix_nil.mp h), ?_⟩
    rw [lastIndex, if_neg (mt List.isEmpty_iff.mp hsep)]
  | cons c s ih =>
    rw [lastIndex]
    rcases ih (i + 1) (if sep.isPrefixOf (c :: s) then some i else best) with
      ⟨p, r, hlast, hindex⟩ | ⟨hnone, hindex⟩
    · -- the last place in the rest counts from one character later on
      refine .inl ⟨c :: p, r, hlast.cons c, ?_⟩
      rw [hindex, List.length_cons, Nat.add_right_comm, Nat.add_assoc]
    · by_cases hfront : sep <+: c :: s
      · obtain ⟨r, hr⟩ := hfront
        refine .inl ⟨[], r, .of_not_isInfix hr hnone, ?_⟩
        rw [hindex, if_pos (List.isPrefixOf_iff_prefix.mpr ⟨r, hr⟩)]
        rfl
      · refine .inr ⟨fun h => (List.infix_cons_iff.mp h).elim hfront hnone, ?_⟩
        rw [hindex, if_neg (mt List.isPrefixOf_iff_prefix.mp hfront)]

/-! ### The cut -/

private theorem aroundLast_of_isInfix (hsep : sep ≠ []) (h : sep <:+: s) :
    ∃ p r, LastAt sep p r s ∧ aroundLast sep s = (p ++ sep, r) := by
  rcases lastIndex_cases hsep s 0 none with ⟨p, r, hlast, hindex⟩ | ⟨hnone, -⟩
  · refine ⟨p, r, hlast, ?_⟩
    have hlength : (p ++ sep).length = 0 + p.length + sep.length := by
      rw [List.length_append, Nat.zero_add]
    calc aroundLast sep s
        = s.splitAt (0 + p.length + sep.length) := by rw [aroundLast, hindex]
      _ = (p ++ sep, r) := by
        rw [List.splitAt_eq, ← hlast.append, List.take_left' hlength, List.drop_left' hlength]
  · exact absurd h hnone

private theorem aroundLast_of_not_isInfix (hsep : sep ≠ []) (h : ¬sep <:+: s) :
    aroundLast sep s = (s.take (sep.length - 1), s.drop (sep.length - 1)) := by
  rcases lastIndex_cases hsep s 0 none with ⟨p, r, hlast, -⟩ | ⟨-, hindex⟩
  · exact absurd ⟨p, r, hlast.append⟩ h
  · rw [aroundLast, hindex]
    exact List.splitAt_eq

private theorem append_aroundLast (sep s : Text) :
    (aroundLast sep s).1 ++ (aroundLast sep s).2 = s := by
  unfold aroundLast
  split
  · rw [List.splitAt_eq, List.take_append_drop]
  · rw [List.splitAt_eq, List.take_append_drop]

/-- What a cut around the last separator promises. Nothing is lost; the left side ends with the
separator at its last place and the right side does not contain it; and without a separator
everything is on the right side. -/
structure CutsAround (sep s : Text) (cut : Text × Text) : Prop where
  append : cut.1 ++ cut.2 = s
  found : sep <:+: s →
    (∃ p, cut.1 = p ++ sep ∧ LastAt sep p cut.2 s) ∧ ¬sep <:+: cut.2
  missing : ¬sep <:+: s → cut = ([], s)

private theorem cutsAround_aroundLast (hsep : sep ≠ []) (h : sep <:+: s) :
    CutsAround sep s (aroundLast sep s) where
  append := append_aroundLast sep s
  found _ := by
    obtain ⟨p, r, hlast, hcut⟩ := aroundLast_of_isInfix hsep h
    rw [hcut]
    exact ⟨⟨p, rfl, hlast⟩, hlast.not_isInfix hsep⟩
  missing hno := absurd h hno

/-- **Cutting around the last separator.** Nothing is lost. Where the separator does not stand in
the text, the left side has one character less than the separator, as far as the text has so many.
So the cut keeps its promise if and only if the separator stands in the text or is a single
character, or the text is empty. -/
theorem aroundLast_law (hsep : sep ≠ []) (s : Text) :
    (aroundLast sep s).1 ++ (aroundLast sep s).2 = s ∧
    (¬sep <:+: s → aroundLast sep s = (s.take (sep.length - 1), s.drop (sep.length - 1))) ∧
    (CutsAround sep s (aroundLast sep s) ↔ sep <:+: s ∨ sep.length = 1 ∨ s = []) := by
  refine ⟨append_aroundLast sep s, aroundLast_of_not_isInfix hsep, ?_⟩
  by_cases hstands : sep <:+: s
  · exact iff_of_true (cutsAround_aroundLast hsep hstands) (.inl hstands)
  have hcut := aroundLast_of_not_isInfix hsep hstands
  have hpos : 0 < sep.length := List.length_pos_of_ne_nil hsep
  constructor
  · intro h
    have hleft : s.take (sep.length - 1) = [] :=
      congrArg Prod.fst (hcut.symm.trans (h.missing hstands))
    refine .inr ((List.take_eq_nil_iff.mp hleft).imp_left fun hlength => ?_)
    omega
  · intro h
    refine ⟨append_aroundLast sep s, fun hno => absurd hno hstands, fun _ => ?_⟩
    rw [hcut]
    rcases h.resolve_left hstands with hlength | rfl
    · rw [hlength]
      rfl
    · rw [List.take_nil, List.drop_nil]

/-- Places that overlap are all looked at. -/
theorem aroundLast_law_overlapping :
    CutsAround "aa".toList "baaac".toList (aroundLast "aa".toList "baaac".toList) ∧
      aroundLast "aa".toList "baaac".toList = ("baaa".toList, "c".toList) := by
  have hsep : "aa".toList ≠ [] := by decide
  obtain ⟨-, -, hlaw⟩ := aroundLast_law hsep "baaac".toList
  exact ⟨hlaw.mpr (.inl (by decide)), rfl⟩

/-- A character goes to the left side although the separator does not stand in the text. -/
theorem not_cutsAround_missing :
    aroundLast "xy".toList "abc".toList = ("a".toList, "bc".toList) ∧
      ¬CutsAround "xy".toList "abc".toList (aroundLast "xy".toList "abc".toList) :=
  ⟨rfl, fun h => absurd (h.missing (by decide)) (by decide)⟩

/-- Around the last occurrence of a character, a text is cut as behind it. -/
theorem aroundLast_singleton (c : Char) (s : Text) :
    aroundLast [c] s = (throughLast c s, afterLast c s) := by
  by_cases h : c ∈ s
  · obtain ⟨p, r, hlast, hcut⟩ :=
      aroundLast_of_isInfix (List.cons_ne_nil c []) ((List.singleton_infix_iff c s).mpr h)
    have hr : c ∉ r :=
      mt (List.singleton_infix_iff c r).mpr (hlast.not_isInfix (List.cons_ne_nil c []))
    have hs : p ++ c :: r = s := by rw [← hlast.append, List.append_cons]
    rw [hcut, ← hs, throughLast_append_cons hr, afterLast_append_cons hr]
  · have hstands : ¬[c] <:+: s := mt (List.singleton_infix_iff c s).mp h
    rw [aroundLast_of_not_isInfix (List.cons_ne_nil c []) hstands, throughLast_eq_nil h,
      afterLast_eq_self h]
    rfl

end EntryRef.Text
