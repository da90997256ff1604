import EntryRef.Proofs.Reference.RoundTrip

/-!
# Which references survive being written

Not every reference is read back from its text. A locator that was not read may have a number sign,
at which the text is cut when it is read, or a fault, for which the text is refused.
`Reference.Survives` says that a reference is read back as the same one; it need not have been read
before, and its flags may have any values.

What becomes of the locator and what becomes of the flags do not depend on each other
(`Reference.survives_iff`): the query of flags is empty or starts with a question mark, so that
neither an escape nor the first question mark lies across the boundary. Flags that the table admits
always survive, which gives the exact condition on the locator
(`Reference.survives_iff_of_admitted`).
-/

namespace EntryRef

open Text
open Identifier (Clean)

variable {table : FlagTable}

/-! ### Flags -/

@[simp]
theorem FlagValue.same_self (v : FlagValue) : v.same v := by
  rw [FlagValue.same, beq_self_eq_true, Bool.true_or]

/-- The value is of the type of the flag's default, and short enough to be read if it is a
number. -/
def Flag.Admits (f : Flag) : FlagValue → Prop
  | .truth _ => ∃ b, f.default = .truth b
  | .number n => (∃ m, f.default = .number m) ∧ Readable n
  | .words _ => ∃ t, f.default = .words t

/-- The flags of both tables of this library keep the values that they admit. -/
theorem FlagTable.keeps_of_admits (ht : table = .standard ∨ table = .extended) {f : Flag}
    (hf : f ∈ table) {v : FlagValue} (hv : f.Admits v) : f.Keeps v := by
  rcases FlagTable.mem_of_known ht hf with rfl | rfl
  · cases v with
    | truth b => exact Flag.source_keeps b
    | number n => exact absurd hv.1.choose_spec (by simp [Flag.source])
    | words t => exact absurd hv.choose_spec (by simp [Flag.source])
  · cases v with
    | truth b => exact absurd hv.choose_spec (by simp [Flag.depth])
    | number n => exact Flag.depth_keeps hv.2
    | words t => exact absurd hv.choose_spec (by simp [Flag.depth])

namespace Flags

variable {q : Flags table}

@[simp]
theorem same_self (q : Flags table) : q.same q := by
  rw [same, List.zip, List.zipWith_self, List.all_map, List.all_eq_true]
  intro v _
  cases v with
  | none => rfl
  | some v => exact v.same_self

/-- The flags are written behind a question mark, or not at all. -/
theorem toQuery_eq_nil_or_cons (q : Flags table) : q.toQuery = [] ∨ ∃ r, q.toQuery = '?' :: r := by
  by_cases hnil : q.tokens = []
  · exact .inl (toQuery_of_tokens_eq_nil hnil)
  · exact .inr ⟨_, toQuery_of_tokens_ne_nil hnil⟩

/-- Each flag that is set has a value that it admits. -/
def Admitted (q : Flags table) : Prop := ∀ p ∈ q.pairs, ∀ v, p.2 = some v → p.1.Admits v

/-- Of the known tables, values that are admitted are kept. -/
theorem Admitted.kept (ht : table = .standard ∨ table = .extended) (hq : q.Admitted) : q.Kept :=
  fun p hp v hv => FlagTable.keeps_of_admits ht (List.of_mem_zip hp).1 (hq p hp v hv)

/-- The flags that are read from what is written for some flags. -/
def reread (q : Flags table) : Flags table := (Reference.ofSpecific table q.toQuery).flags

/-- The query of the flags has no faults and is read back as the same flags. -/
structure Survive (q : Flags table) : Prop where
  clean : Clean q.toQuery
  same : q.reread.same q

@[simp]
theorem toQuery_none (table : FlagTable) : (none table).toQuery = [] :=
  toQuery_of_tokens_eq_nil (tokens_none table)

@[simp]
theorem reread_none (table : FlagTable) : (none table).reread = none table := by
  rw [reread, toQuery_none]
  rfl

/-- Flags of which none is set survive. -/
theorem survive_none (table : FlagTable) : (none table).Survive where
  clean := by
    rw [toQuery_none]
    exact Clean.of_not_mem (by simp) List.not_mem_nil
  same := by
    rw [reread_none, same_self]

end Flags

namespace Reference

variable {base : Text}

/-- The query of flags behind a locator takes nothing from it. -/
theorem ofSpecific_append_toQuery (hquery : '?' ∉ base) (hfragment : '#' ∉ base) (q : Flags table) :
    ofSpecific table (base ++ q.toQuery) = ⟨base, q.reread, hquery⟩ := by
  have hnothing : before '?' (before '#' q.toQuery) = [] := by
    rcases q.toQuery_eq_nil_or_cons with h | ⟨r, h⟩
    · rw [h]
      rfl
    · rw [h, before_cons_of_ne (by decide), before_cons_self]
  ext1
  · change before '?' (before '#' (base ++ q.toQuery)) = base
    rw [before_append hfragment, before_append hquery, hnothing, List.append_nil]
  · change Flags.ofQuery table ((after? '?' (before '#' (base ++ q.toQuery))).getD []) =
      Flags.ofQuery table ((after? '?' (before '#' q.toQuery)).getD [])
    rw [before_append hfragment, after?_append hquery]

end Reference

/-! ### Kept flags -/

namespace Flags.Kept

variable {q : Flags table}

/-- Kept flags make a sound reference with no locator at all. -/
private theorem sound_nil (hq : q.Kept) : Reference.Sound ⟨[], q, List.not_mem_nil⟩ :=
  ⟨Clean.of_not_mem (by simp) List.not_mem_nil, List.not_mem_nil, hq⟩

theorem survive (ht : table.Lawful) (hq : q.Kept) : q.Survive where
  clean := Flags.clean_toQuery ht hq
  same := by
    have hreread : q.reread = q := congrArg Reference.flags (hq.sound_nil.ofSpecific_append ht)
    rw [hreread, Flags.same_self]

private theorem toQuery_eq_nil_iff (ht : table.Lawful) (hq : q.Kept) :
    q.toQuery = [] ↔ q = .none table :=
  (hq.sound_nil.specific_eq_nil_iff ht).trans (and_iff_right rfl)

end Flags.Kept

/-! ### References -/

namespace Reference

variable {u : Reference table}

/-- The reference is read back from its text as the same one. -/
def Survives (u : Reference table) : Prop := ∃ v, parse table u.toText = .ok v ∧ v.same u

/-- References are the same if their bases and their flags are. -/
theorem same_iff {u v : Reference table} : u.same v ↔ u.base = v.base ∧ u.flags.same v.flags := by
  rw [same, Bool.and_eq_true, beq_iff_eq]

/-- A text with a query of flags behind it is clean if both are. -/
theorem clean_append_toQuery {base : Text} {q : Flags table} :
    Clean (base ++ q.toQuery) ↔ Clean base ∧ Clean q.toQuery := by
  refine ⟨fun h => ⟨?_, h.of_append_right⟩, fun h => h.1.append h.2⟩
  rcases q.toQuery_eq_nil_or_cons with hq | ⟨r, hq⟩
  · rwa [hq, List.append_nil] at h
  · rw [hq] at h
    exact h.of_append_cons (by decide)

/-- A reference survives if its locator has no faults and no number sign, its flags survive, and
something stands behind the scheme. -/
theorem survives_iff : u.Survives ↔
    Clean u.base ∧ '#' ∉ u.base ∧ u.flags.Survive ∧ (u.base ≠ [] ∨ u.flags.toQuery ≠ []) := by
  constructor
  · rintro ⟨v, hparse, hsame⟩
    obtain ⟨rest, htext, hclean, hne, rfl⟩ := parse_eq_ok_iff.mp hparse
    obtain rfl : u.base ++ u.flags.toQuery = rest := by
      rw [toText_eq, List.append_cancel_left_eq, List.cons.injEq] at htext
      exact htext.2
    obtain ⟨hbase, hflags⟩ := same_iff.mp hsame
    -- what is read ends where a fragment starts, so that the same locator has no number sign
    have hfragment : '#' ∉ u.base := by
      rw [← hbase]
      exact fun h => not_mem_before '#' _ (before_subset '?' _ h)
    rw [ofSpecific_append_toQuery u.no_query hfragment] at hflags
    rw [htext, List.append_cons] at hclean
    obtain ⟨hcleanBase, hcleanQuery⟩ := clean_append_toQuery.mp hclean.of_append_right
    refine ⟨hcleanBase, hfragment, ⟨hcleanQuery, hflags⟩, ?_⟩
    by_contra hnot
    rw [not_or, not_not, not_not] at hnot
    rw [hnot.1, hnot.2] at hne
    exact hne rfl
  · rintro ⟨hclean, hfragment, hflags, hne⟩
    have hspecific : before '#' (u.base ++ u.flags.toQuery) ≠ [] := by
      rw [before_append hfragment]
      rcases hne with hne | hne
      · exact List.append_ne_nil_of_left_ne_nil hne _
      · obtain ⟨r, hr⟩ := u.flags.toQuery_eq_nil_or_cons.resolve_left hne
        rw [hr, before_cons_of_ne (by decide)]
        exact List.append_ne_nil_of_right_ne_nil _ (List.cons_ne_nil _ _)
    refine ⟨⟨u.base, u.flags.reread, u.no_query⟩, ?_, same_iff.mpr ⟨rfl, hflags.same⟩⟩
    rw [toText_eq, parse_scheme_append (clean_append_toQuery.mpr ⟨hclean, hflags.clean⟩) hspecific,
      ofSpecific_append_toQuery u.no_query hfragment]

/-- **What survives.** A reference of any making, with flags that are not set or of their types, is
read back from its text if and only if its locator has no number sign and no illegal character, two
hexadecimal digits of the locator follow each of its percent signs, and the locator is not empty or
some flag is set. What is read back is the reference itself. -/
theorem survives_iff_of_admitted (ht : table = .standard ∨ table = .extended)
    (hu : u.flags.Admitted) :
    (u.Survives ↔ '#' ∉ u.base ∧ (∀ c ∈ u.base, Identifier.isIllegal c = false) ∧
      (∀ p r, u.base = p ++ '%' :: r → Identifier.startsWithEscape r) ∧
      (u.base ≠ [] ∨ u.flags ≠ .none table)) ∧
    (u.Survives → parse table u.toText = .ok u) := by
  have hlawful : table.Lawful := FlagTable.lawful_of_known ht
  have hkept : u.flags.Kept := hu.kept ht
  have hset : u.flags.toQuery ≠ [] ↔ u.flags ≠ .none table :=
    not_congr (hkept.toQuery_eq_nil_iff hlawful)
  constructor
  · rw [survives_iff, hset, and_iff_right (hkept.survive hlawful), ← Identifier.escaped_iff]
    constructor
    · rintro ⟨hclean, hfragment, hne⟩
      exact ⟨hfragment, hclean.legal, hclean.escaped, hne⟩
    · rintro ⟨hfragment, hlegal, hescaped, hne⟩
      exact ⟨⟨hlegal, hescaped⟩, hfragment, hne⟩
  · intro h
    obtain ⟨hclean, hfragment, -, hne⟩ := survives_iff.mp h
    rw [hset] at hne
    refine Sound.parse_toText ⟨hclean, hfragment, hkept⟩ hlawful fun hempty => ?_
    exact hne.elim (fun h => h hempty.1) (fun h => h hempty.2)

/-- The query does not complete an escape at the end of the locator. -/
theorem survives_iff_of_admitted_depth : ∃ u v : Reference .extended,
    u.toText = "kls:a%20b.jar!/C.kt?depth=-7".toList ∧ u.Survives ∧
      parse .extended u.toText = .ok u ∧
      v.toText = "kls:a%2?depth=-7".toList ∧ ¬v.Survives := by
  have hadmitted : (⟨[none, some (.number (-7))], rfl⟩ : Flags .extended).Admitted := by
    intro p hp v hv
    have hpairs : p = (Flag.source, none) ∨ p = (Flag.depth, some (.number (-7))) := by
      simpa [Flags.pairs, FlagTable.extended] using hp
    rcases hpairs with rfl | rfl
    · cases hv
    · obtain rfl : FlagValue.number (-7) = v := Option.some.inj hv
      exact ⟨⟨0, rfl⟩, readable_of_readInt (s := "-7".toList) rfl⟩
  have hu := survives_iff_of_admitted (.inr rfl)
    (u := ⟨"a%20b.jar!/C.kt".toList, ⟨[none, some (.number (-7))], rfl⟩, by decide⟩) hadmitted
  have hv := survives_iff_of_admitted (.inr rfl)
    (u := ⟨"a%2".toList, ⟨[none, some (.number (-7))], rfl⟩, by decide⟩) hadmitted
  have hsurvives := hu.1.mpr ⟨by decide, Identifier.legal_of_all (by decide),
    Identifier.escaped_iff.mp ((Identifier.badEscape?_eq_none_iff (i := 0)).mp rfl),
    .inl (List.cons_ne_nil _ _)⟩
  refine ⟨_, ⟨"a%2".toList, ⟨[none, some (.number (-7))], rfl⟩, by decide⟩, rfl, hsurvives,
    hu.2 hsurvives, rfl, fun h => ?_⟩
  exact absurd ((hv.1.mp h).2.2.1 ['a'] ['2'] rfl) (by decide)

end Reference

end EntryRef
