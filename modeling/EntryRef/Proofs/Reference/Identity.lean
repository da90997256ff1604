import EntryRef.Proofs.Reference.Written

/-!
# A reference is told by its text

The text of a reference need not be read back, nor even be accepted: the locator of a reference that
was not read may have number signs and illegal characters, or may be empty. It still says which
reference it is the text of, as long as the flags are not set or of their types
(`Reference.text_eq_iff_same`). The locator ends at the first question mark, since it has none of
its own and the query is empty or starts with one.

There are two reasons why the text does not tell every reference from every other one. A number of
more than `maxDigits` digits is not written, so that there is no text to compare. And a truth value
counts as the number 0 or 1, so that a depth may be set to one; it stands for the same as the number
then, while it is written as a word (`Reference.not_told_by_text`).
-/

namespace EntryRef.Reference

open Text

variable {table : FlagTable} {u v : Reference table}

/-- The locator is what stands before the query. -/
theorem before_base_append_toQuery (u : Reference table) :
    before '?' (u.base ++ u.flags.toQuery) = u.base := by
  have hquery : before '?' u.flags.toQuery = [] := by
    rcases u.flags.toQuery_eq_nil_or_cons with h | ⟨r, h⟩
    · rw [h, before_nil]
    · rw [h, before_cons_self]
  rw [before_append u.no_query, hquery, List.append_nil]

/-- References with the same text have the same locator and the same query. -/
theorem toText_eq_iff : u.toText = v.toText ↔
    u.base = v.base ∧ u.flags.toQuery = v.flags.toQuery := by
  constructor
  · intro h
    have hspecific : u.base ++ u.flags.toQuery = v.base ++ v.flags.toQuery := by
      rw [toText_eq, toText_eq, List.append_cancel_left_eq, List.cons.injEq] at h
      exact h.2
    have hbase : u.base = v.base := by
      rw [← u.before_base_append_toQuery, hspecific, v.before_base_append_toQuery]
    rw [hbase, List.append_cancel_left_eq] at hspecific
    exact ⟨hbase, hspecific⟩
  · rintro ⟨hbase, hquery⟩
    rw [toText_eq, toText_eq, hbase, hquery]

/-- The form that is written tells typed flags and the locator apart. -/
theorem toText_inj_of_typed (ht : table = .standard ∨ table = .extended) (hu : u.flags.Typed)
    (hv : v.flags.Typed) : u.toText = v.toText ↔ u = v := by
  rw [toText_eq_iff, Reference.ext_iff]
  refine and_congr_right fun _ => ⟨hu.eq_of_toQuery_eq ht hv, fun h => ?_⟩
  rw [h]

/-- **Identity.** Two references of any making, with flags that are not set or of their types, name
the same with flags that stand for the same if and only if they are the same reference. Each of them
has a text unless its depth is a number of more than `maxDigits` digits, and if both have one, the
texts are the same if and only if the references are. -/
theorem text_eq_iff_same (ht : table = .standard ∨ table = .extended) (hu : u.flags.Typed)
    (hv : v.flags.Typed) :
    (u.same v ↔ u = v) ∧
    ((∃ s, u.text = .ok s) ↔ ∀ n, some (.number n) ∈ u.flags.values → Readable n) ∧
    ∀ s t, u.text = .ok s → v.text = .ok t → (s = t ↔ u.same v) := by
  have hsame : u.same v ↔ u = v := by
    rw [same_iff, hu.same_iff hv, Reference.ext_iff]
  refine ⟨hsame, ?_, fun s t hs ht' => ?_⟩
  · rw [exists_text_iff ht hu, Flags.haveText_iff_readable]
  · rw [eq_toText_of_text hs, eq_toText_of_text ht', hsame, toText_inj_of_typed ht hu hv]

/-- The flags are told apart behind a locator that is not even accepted when it is read. -/
theorem text_eq_iff_same_refused : ∃ u v : Reference .extended,
    u.text = .ok "kls:a#b c?source=true&depth=-7".toList ∧ u.flags.Typed ∧
      v.text = .ok "kls:a#b c?depth=-7".toList ∧ v.flags.Typed ∧ ¬u.same v ∧ u ≠ v := by
  have htyped : ∀ w : Option FlagValue, (∀ x, w = some x → Flag.source.Typed x) →
      (⟨[w, some (.number (-7))], rfl⟩ : Flags .extended).Typed := by
    intro w hw
    change ∀ p ∈ [(Flag.source, w), (Flag.depth, some (.number (-7)))], _
    rw [List.forall_mem_cons, List.forall_mem_cons]
    refine ⟨hw, fun x hx => ?_, List.forall_mem_nil _⟩
    obtain rfl : FlagValue.number (-7) = x := Option.some.inj hx
    exact Flag.depth_typed_iff.mpr ⟨_, rfl⟩
  have hu := htyped (some (.truth true)) fun x hx => by
    obtain rfl : FlagValue.truth true = x := Option.some.inj hx
    exact Flag.source_typed_iff.mpr ⟨_, rfl⟩
  have hv := htyped none fun x hx => absurd hx (by simp)
  obtain ⟨hsame, -, htexts⟩ := text_eq_iff_same (.inr rfl)
    (u := ⟨"a#b c".toList, _, by decide⟩) (v := ⟨"a#b c".toList, _, by decide⟩) hu hv
  have hne : ¬Reference.same _ _ := fun h => absurd
    ((htexts "kls:a#b c?source=true&depth=-7".toList "kls:a#b c?depth=-7".toList (by decide +kernel)
      (by decide +kernel)).mpr h) (by decide)
  exact ⟨_, _, by decide +kernel, hu, by decide +kernel, hv, hne, fun h => hne (hsame.mpr h)⟩

/-- A depth that was set to a truth value makes a reference that is the same as one with a number
for its depth, while their texts differ. A depth of too many digits leaves a reference, which is the
same as itself, without a text. -/
theorem not_told_by_text :
    (∃ (u v : Reference .extended) (s t : Text), u.text = .ok s ∧ v.text = .ok t ∧
      u.flags.values = [none, some (.truth true)] ∧ v.flags.values = [none, some (.number 1)] ∧
      u.same v ∧ s ≠ t) ∧
    ∃ u : Reference .extended, u.flags.Typed ∧ u.same u ∧ ¬∃ s, u.text = .ok s := by
  refine ⟨⟨⟨['a'], ⟨[none, some (.truth true)], rfl⟩, by decide⟩,
    ⟨['a'], ⟨[none, some (.number 1)], rfl⟩, by decide⟩, "kls:a?depth=True".toList,
    "kls:a?depth=1".toList, by decide +kernel, by decide +kernel, rfl, rfl, by decide, by decide⟩,
    ?_⟩
  have htyped : (⟨[none, some (.number (10 ^ maxDigits))], rfl⟩ : Flags .extended).Typed := by
    change ∀ p ∈ [(Flag.source, none), (Flag.depth, some (FlagValue.number (10 ^ maxDigits)))], _
    rw [List.forall_mem_cons, List.forall_mem_cons]
    refine ⟨fun x hx => absurd hx (by simp), fun x hx => ?_, List.forall_mem_nil _⟩
    obtain rfl : FlagValue.number (10 ^ maxDigits) = x := Option.some.inj hx
    exact Flag.depth_typed_iff.mpr ⟨_, rfl⟩
  refine ⟨⟨['a'], _, by decide⟩, htyped, ?_, fun h => ?_⟩
  · rw [same_iff]
    exact ⟨rfl, Flags.same_self _⟩
  · rw [exists_text_iff (.inr rfl) htyped, Flags.haveText_iff_readable] at h
    exact absurd (h (10 ^ maxDigits) (by simp)) (not_readable_pow)

end EntryRef.Reference
