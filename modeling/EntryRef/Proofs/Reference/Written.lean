import EntryRef.Proofs.Flag.Typed
import EntryRef.Proofs.Reference.Survival
import Mathlib.Algebra.Group.Int.Defs

/-!
# Which references are written

A number of more than `maxDigits` digits is not read, and it is not written either, so that a
reference with such a depth has no text. That is the only reason for which one with typed flags is
not written (`Reference.text_of_typed`). So the references that have a text are those whose flags
are `Admitted`, which are read back from it (`Reference.exists_text_iff_admitted`).

The flags of `FlagTable.standard` have no numbers to write, whatever their values are
(`Reference.text_standard`). What is quoted in an error or printed is therefore given as
`Reference.toText` wherever references have these flags only.
-/

namespace EntryRef

open Text

variable {table : FlagTable}

/-! ### Values -/

/-- The value has a text: it is no number, or one of no more than `maxDigits` digits. -/
def FlagValue.HasText : FlagValue → Prop
  | .number n => Readable n
  | .truth _ | .words _ => True

instance : DecidablePred Readable := fun n =>
  inferInstanceAs (Decidable (n.natAbs < 10 ^ maxDigits))

instance : DecidablePred FlagValue.HasText
  | .number n => inferInstanceAs (Decidable (Readable n))
  | .truth _ | .words _ => inferInstanceAs (Decidable True)

private theorem le_natAbs_pow_ten (k : Nat) : 10 ^ k ≤ ((10 : Int) ^ k).natAbs :=
  (Int.natAbs_pow 10 k).ge

/-- A power of ten has one digit more than its exponent says. -/
theorem Text.not_readable_pow : ¬Readable (10 ^ maxDigits) :=
  Nat.not_lt_of_ge (le_natAbs_pow_ten maxDigits)

private theorem pow_ten_eq (k : Nat) : Nat.pow 10 k = 10 ^ k := rfl

private theorem Text.unwritable?_eq (n : Int) :
    Text.unwritable? n = if Readable n then none else some .unwritable := by
  rw [Text.unwritable?, pow_ten_eq]
  rfl

namespace Flag

variable {f : Flag} {v : FlagValue}

private theorem admits_iff : f.Admits v ↔ f.Typed v ∧ v.HasText := by
  cases v with
  | truth b => exact (and_iff_left trivial).symm
  | number n => exact Iff.rfl
  | words t => exact (and_iff_left trivial).symm

/-- A flag writes each value of its type but a number that is too long. -/
theorem unwritable?_of_typed (hf : f = source ∨ f = depth) (hv : f.Typed v) :
    f.unwritable? v = if v.HasText then none else some (.number .unwritable) := by
  rcases hf with rfl | rfl
  · obtain ⟨b, rfl⟩ := source_typed_iff.mp hv
    rfl
  · obtain ⟨n, rfl⟩ := depth_typed_iff.mp hv
    have htext : (FlagValue.number n).HasText ↔ Readable n := Iff.rfl
    simp only [depth, Text.unwritable?_eq, htext, apply_ite (Option.map FlagFault.number),
      Option.map_none, Option.map_some]

end Flag

/-! ### Flags -/

namespace Flags

variable {q : Flags table}

/-- Each flag that is set has a value with a text. -/
def HaveText (q : Flags table) : Prop := ∀ v ∈ q.values, ∀ x ∈ v, x.HasText

instance : DecidablePred (@HaveText table) := fun q =>
  inferInstanceAs (Decidable (∀ v ∈ q.values, ∀ x ∈ v, x.HasText))

private theorem haveText_iff_pairs : q.HaveText ↔ ∀ p ∈ q.pairs, ∀ x ∈ p.2, x.HasText := by
  rw [HaveText, ← map_snd_pairs q, List.forall_mem_map]

/-- Numbers are the only values that may have no text. -/
theorem haveText_iff_readable :
    q.HaveText ↔ ∀ n, some (.number n) ∈ q.values → Readable n := by
  constructor
  · intro h n hn
    exact h _ hn (.number n) rfl
  · intro h v hv x hx
    obtain rfl : v = some x := hx
    cases x with
    | truth b => trivial
    | number n => exact h n hv
    | words t => trivial

/-- Flags that are set to values of their types with texts are admitted. -/
theorem Typed.admitted_iff (hq : q.Typed) : q.Admitted ↔ q.HaveText := by
  rw [haveText_iff_pairs]
  refine forall₄_congr fun p hp v hv => ?_
  rw [Flag.admits_iff]
  exact and_iff_right (hq p hp v hv)

/-- Typed flags are written unless one of them has no text, which is a number then. -/
theorem Typed.unwritable?_eq (ht : table = .standard ∨ table = .extended) (hq : q.Typed) :
    q.unwritable? = if q.HaveText then Option.none else some (.number .unwritable) := by
  have hflag : ∀ p ∈ q.pairs, ∀ x ∈ p.2,
      p.1.unwritable? x = if x.HasText then Option.none else some (.number .unwritable) :=
    fun p hp x hx => Flag.unwritable?_of_typed
      (FlagTable.mem_of_known ht (List.of_mem_zip hp).1) (hq p hp x hx)
  split
  · next htext =>
    rw [haveText_iff_pairs] at htext
    refine List.findSome?_eq_none_iff.mpr fun p hp => ?_
    rw [Option.bind_eq_none_iff]
    intro x hx
    rw [hflag p hp x hx, if_pos (htext p hp x hx)]
  · next htext =>
    -- all reasons are the same, so that it does not matter which one is the first
    rw [haveText_iff_pairs] at htext
    simp only [not_forall] at htext
    obtain ⟨⟨f, v⟩, hp, x, hx, hno⟩ := htext
    obtain rfl : v = some x := hx
    have hsome : q.unwritable?.isSome := by
      refine List.findSome?_isSome_iff.mpr ⟨_, hp, ?_⟩
      change (f.unwritable? x).isSome
      rw [hflag _ hp x rfl, if_neg hno]
      rfl
    obtain ⟨why, hwhy⟩ := Option.isSome_iff_exists.mp hsome
    obtain ⟨r, hr, hreason⟩ := List.exists_of_findSome?_eq_some hwhy
    obtain ⟨y, hy, hreason⟩ := Option.bind_eq_some_iff.mp hreason
    rw [hflag r hr y hy, Option.ite_none_left_eq_some] at hreason
    rw [hwhy, hreason.2]

end Flags

/-! ### References -/

namespace Reference

variable {u : Reference table} {s : Text}

/-- A reference with typed flags is written unless one of them has no text. -/
theorem text_of_typed (ht : table = .standard ∨ table = .extended) (hu : u.flags.Typed) :
    u.text = if u.flags.HaveText then .ok u.toText else .error (.number .unwritable) := by
  rw [text, hu.unwritable?_eq ht]
  split <;> simp_all

/-- The text of a reference is its written form. -/
theorem eq_toText_of_text (h : u.text = .ok s) : s = u.toText := by
  rw [text] at h
  split at h
  · cases h
  · exact (Except.ok.inj h).symm

theorem exists_text_iff (ht : table = .standard ∨ table = .extended) (hu : u.flags.Typed) :
    (∃ s, u.text = .ok s) ↔ u.flags.HaveText := by
  rw [text_of_typed ht hu]
  split
  · next h => exact iff_of_true ⟨_, rfl⟩ h
  · next h => exact iff_of_false (fun ⟨s, hs⟩ => by cases hs) h

/-- The references with a text are those that are read back from it. -/
theorem exists_text_iff_admitted (ht : table = .standard ∨ table = .extended)
    (hu : u.flags.Typed) : (∃ s, u.text = .ok s) ↔ u.flags.Admitted := by
  rw [exists_text_iff ht hu, hu.admitted_iff]

/-- Every reference with the flags of `FlagTable.standard` is written. -/
theorem text_standard (u : Reference .standard) : u.text = .ok u.toText := by
  have hnone : u.flags.unwritable? = none := by
    refine List.findSome?_eq_none_iff.mpr fun p hp => ?_
    have hsource : p.1 = Flag.source := List.mem_singleton.mp (List.of_mem_zip hp).1
    rw [Option.bind_eq_none_iff]
    intro x _
    rw [hsource]
    rfl
  rw [text, hnone]

/-- The text of a reference, if it has one. -/
def text? (u : Reference table) : Option Text := u.text.toOption

private theorem text?_eq_some_iff : u.text? = some s ↔ u.text = .ok s := by
  rw [text?]
  cases u.text with
  | error why => exact iff_of_false nofun nofun
  | ok t => rw [Except.toOption, Option.some.injEq, Except.ok.injEq]

/-- Typed flags of a reference that has a text are read back. -/
theorem kept_of_text? (ht : table = .standard ∨ table = .extended) (hu : u.flags.Typed)
    (h : u.text? = some s) : s = u.toText ∧ u.flags.Kept := by
  have htext := text?_eq_some_iff.mp h
  exact ⟨eq_toText_of_text htext, ((exists_text_iff_admitted ht hu).mp ⟨s, htext⟩).kept ht⟩

end Reference

end EntryRef
