import EntryRef.Proofs.Flag.Setting
import EntryRef.Proofs.Reference.Moved
import EntryRef.Proofs.Reference.Written
import EntryRef.Reference.Run

/-!
# What runs of changes keep

Each step of a run makes its reference in a way of its own: some write the locator anew, some read
or take a value for a flag, and some start over from a text. All of them leave the flags typed
(`Reference.typed_of_change`), and so does a run of them, since a step that fails leaves the
reference as it is (`Reference.typed_run`). The locator has no question mark however the reference
was made, so that the text tells where it ends (`Reference.text_run`).

A run may lead to a reference without a text, since a depth that is set may be of any length. And a
reference that was made with a flag of another type keeps it, as long as no step sets or reads this
flag (`Reference.text_run_not`).
-/

namespace EntryRef.Reference

open Text

variable {table : FlagTable} {u v : Reference table}

/-! ### One step -/

/-- A result with other words for its failure is the same result. -/
private theorem of_mapError {α ε δ : Type} {x : Except ε α} {f : ε → δ} {a : α}
    (h : x.mapError f = .ok a) : x = .ok a := by
  cases x with
  | error why => cases h
  | ok b => exact congrArg Except.ok (Except.ok.inj h)

/-- A reference that is made with given flags has these flags. -/
theorem flags_of_ofBase {base : Text} {q : Flags table} (h : ofBase base q = .ok v) :
    v.flags = q := by
  rw [ofBase] at h
  split at h
  · cases h
  · rw [← Except.ok.inj h]

private theorem typed_of_parse (ht : table = .standard ∨ table = .extended) {s : Text}
    (h : parse table s = .ok u) : u.flags.Typed := by
  obtain ⟨rest, -, -, -, rfl⟩ := parse_eq_ok_iff.mp h
  exact Flags.typed_ofQuery ht _

private theorem typed_of_withFlag (ht : table = .standard ∨ table = .extended) (hu : u.flags.Typed)
    {name : Text} {given : Given} (h : u.withFlag name given = .ok v) : v.flags.Typed := by
  obtain ⟨q, hset, rfl⟩ := withFlag_eq_ok_iff.mp h
  exact Flags.typed_of_set ht hu hset

/-- A reference is normalized to itself. -/
theorem normalize_reference (cwd : Path.Raw) (u : Reference table) :
    normalize cwd (.reference u) = .ok (some u) := rfl

/-- A step keeps the flags typed. -/
theorem typed_of_change (ht : table = .standard ∨ table = .extended) (hu : u.flags.Typed)
    {c : Change} (h : u.change c = .ok v) : v.flags.Typed := by
  cases c with
  | archive cwd p =>
    rw [flags_of_withArchiveAt (of_mapError h)]
    exact hu
  | extension ext =>
    have hbase : u.withExtension ext = .ok v := of_mapError h
    rw [flags_of_ofBase hbase]
    exact hu
  | flag name given => exact typed_of_withFlag ht hu (of_mapError h)
  | source given => exact typed_of_withFlag ht hu (of_mapError h)
  | noFlags =>
    rw [← Except.ok.inj h]
    exact Flags.typed_none table
  | base base =>
    have hbase : ofBase base u.flags = .ok v := of_mapError h
    rw [flags_of_ofBase hbase]
    exact hu
  | reread =>
    simp only [change] at h
    split at h
    · exact typed_of_parse ht (of_mapError h)
    · cases h
  | normalized cwd =>
    simp only [change, normalize_reference] at h
    rw [← Except.ok.inj h]
    exact hu
  | remade =>
    have hbase : ofBase u.base u.flags = .ok v := of_mapError h
    rw [flags_of_ofBase hbase]
    exact hu

/-- A step leads to where the change leads, or nowhere. -/
theorem step_cases (u : Reference table) (c : Change) :
    u.change c = .ok (u.step c) ∨ u.step c = u := by
  rw [step]
  cases u.change c with
  | ok v => exact .inl rfl
  | error why => exact .inr rfl

private theorem typed_step (ht : table = .standard ∨ table = .extended) (hu : u.flags.Typed)
    (c : Change) :
    (u.step c).flags.Typed := by
  rcases u.step_cases c with h | h
  · exact typed_of_change ht hu h
  · rw [h]
    exact hu

/-! ### Runs -/

private theorem run_cons (u : Reference table) (c : Change) (cs : List Change) :
    u.run (c :: cs) = (u.step c).run cs := rfl

/-- A run keeps the flags typed. -/
theorem typed_run (ht : table = .standard ∨ table = .extended) (hu : u.flags.Typed)
    (cs : List Change) : (u.run cs).flags.Typed := by
  induction cs generalizing u with
  | nil => exact hu
  | cons c cs ih =>
    rw [run_cons]
    exact ih (typed_step ht hu c)

/-- **Runs.** Whatever changes are made to a reference that was read, or otherwise has typed flags,
and whichever of them fail, its locator has no question mark and each of its flags is not set or has
a value of its type. Its text is the scheme and the locator, with the flags that are set behind one
question mark in the order of the table, unless a number among them has more than `maxDigits`
digits; then it has no text. -/
theorem text_run (ht : table = .standard ∨ table = .extended)
    (hu : (∃ s, parse table s = .ok u) ∨ u.flags.Typed) (cs : List Change) :
    '?' ∉ (u.run cs).base ∧ (u.run cs).flags.Typed ∧
      ((∀ n, some (.number n) ∈ (u.run cs).flags.values → Readable n) →
        ∃ query, (u.run cs).text = .ok (scheme ++ ':' :: ((u.run cs).base ++ query)) ∧
          (u.run cs).flags.Writes query) ∧
      ∀ n, some (.number n) ∈ (u.run cs).flags.values → ¬Readable n →
        (u.run cs).text = .error (.number .unwritable) := by
  have hstart : u.flags.Typed := by
    rcases hu with ⟨s, hs⟩ | hu
    · exact typed_of_parse ht hs
    · exact hu
  have htyped : (u.run cs).flags.Typed := typed_run ht hstart cs
  have htext := text_of_typed ht htyped
  refine ⟨(u.run cs).no_query, htyped, fun h => ⟨_, ?_, htyped.writes ht⟩, fun n hn h => ?_⟩
  · rw [htext, if_pos (Flags.haveText_iff_readable.mpr h), toText_eq]
  · rw [htext, if_neg fun h' => h (Flags.haveText_iff_readable.mp h' n hn)]

/-- The second and the third step fail. The number sign of the new locator is written as it is. -/
theorem text_run_failing : ∃ u : Reference .extended,
    parse .extended "kls:a.jar!/B.kt?source=yes".toList = .ok u ∧
      let v := u.run [.flag "depth".toList (.truth true), .flag "depth".toList (.words "x".toList),
        .extension "k?t".toList, .base "b#c".toList, .remade]
      v.text = .ok "kls:b#c?source=false&depth=1".toList ∧ '?' ∉ v.base ∧ v.flags.Typed ∧
        v.flags.settings =
          [["source".toList, "false".toList], ["depth".toList, "1".toList]] := by
  have hparse : parse .extended "kls:a.jar!/B.kt?source=yes".toList =
      .ok (ofSpecific _ "a.jar!/B.kt?source=yes".toList) := rfl
  obtain ⟨hbase, htyped, -⟩ := text_run (.inr rfl) (.inl ⟨_, hparse⟩)
    [.flag "depth".toList (.truth true), .flag "depth".toList (.words "x".toList),
      .extension "k?t".toList, .base "b#c".toList, .remade]
  exact ⟨_, hparse, by decide +kernel, hbase, htyped, rfl⟩

/-- A reference that was read loses its text when its depth is set to a number of too many digits.
One that was made with a number for its source is normalized to itself, and the number stays. -/
theorem text_run_not :
    (∃ u : Reference .extended, parse .extended "kls:a.jar".toList = .ok u ∧
      ¬∃ s, (u.run [.flag "depth".toList (.number (10 ^ maxDigits))]).text = .ok s) ∧
    ∃ (u : Reference .standard) (cwd : Path.Raw), u.flags.values = [some (.number 5)] ∧
      ¬u.flags.Typed ∧ u.run [.normalized cwd] = u := by
  constructor
  · have hparse : parse .extended "kls:a.jar".toList = .ok (ofSpecific _ "a.jar".toList) := rfl
    refine ⟨_, hparse, ?_⟩
    have hset : (ofSpecific .extended "a.jar".toList).run
        [.flag "depth".toList (.number (10 ^ maxDigits))] =
          ⟨"a.jar".toList, ⟨[none, some (.number (10 ^ maxDigits))], rfl⟩, by decide⟩ := rfl
    obtain ⟨-, -, -, htext⟩ := text_run (.inr rfl) (.inl ⟨_, hparse⟩)
      [.flag "depth".toList (.number (10 ^ maxDigits))]
    rw [htext (10 ^ maxDigits) (by rw [hset]; simp) not_readable_pow]
    rintro ⟨s, hs⟩
    cases hs
  · refine ⟨⟨['a'], ⟨[some (.number 5)], rfl⟩, by decide⟩, .ofText ['/'], rfl, fun h => ?_, rfl⟩
    obtain ⟨b, hb⟩ := Flag.source_typed_iff.mp
      (h (Flag.source, some (.number 5)) List.mem_cons_self (.number 5) rfl)
    cases hb

end EntryRef.Reference
