import EntryRef.Proofs.Flag.Typed
import Mathlib.Data.List.Basic

/-!
# Flags stay of their types

Whatever text a query is and whatever value a flag is set to, a flag of this library has a value of
the type of its default or none (`Flags.typed_ofQuery`, `Flags.typed_of_set`). What is written for
such flags is their settings in the order of the table behind one question mark, or nothing where
none is set (`Flags.Typed.writes`).
-/

namespace EntryRef

open Text

/-! ### Values that are read and taken -/

namespace Flag

variable {f : Flag} {v : FlagValue}

private theorem typed_of_read (hf : f = source ∨ f = depth) {t : Text} (h : f.read t = .ok v) :
    f.Typed v := by
  rcases hf with rfl | rfl
  · exact source_typed_iff.mpr ⟨_, (Except.ok.inj h).symm⟩
  · simp only [depth] at h
    split at h
    · exact depth_typed_iff.mpr ⟨_, (Except.ok.inj h).symm⟩
    · cases h

private theorem typed_of_take (hf : f = source ∨ f = depth) {given : Given}
    (h : f.take given = .ok v) :
    f.Typed v := by
  rcases hf with rfl | rfl
  · exact source_typed_iff.mpr ⟨_, (Except.ok.inj h).symm⟩
  · simp only [depth] at h
    split at h
    · exact depth_typed_iff.mpr ⟨_, (Except.ok.inj h).symm⟩
    · cases h

end Flag

namespace Flags

variable {table : FlagTable} {q r : Flags table}

/-! ### Flags that are read and set -/

theorem typed_none (table : FlagTable) : (none table).Typed := by
  intro p hp v hv
  cases (snd_eq_none_of_mem_pairs_none hp).symm.trans hv

/-- The flags that are read from a query are typed. -/
theorem typed_ofQuery (ht : table = .standard ∨ table = .extended) (query : Text) :
    (ofQuery table query).Typed := by
  intro p hp v hv
  obtain ⟨i, hi, rfl⟩ := List.mem_iff_getElem.mp hp
  simp only [pairs, ofQuery, List.getElem_zip, List.getElem_map] at hv ⊢
  obtain ⟨token, -, htoken⟩ := List.mem_filterMap.mp (List.mem_of_getLast? hv)
  obtain ⟨value, hread⟩ := Flag.exists_read_of_ofToken? htoken
  exact Flag.typed_of_read (FlagTable.mem_of_known ht (List.getElem_mem _)) hread

/-- A value that a flag accepts has been read or taken. -/
theorem read_or_take_of_accept {f : Flag} {given : Given} {v : FlagValue}
    (h : accept f given = .ok (some v)) : (∃ t, f.read t = .ok v) ∨ f.take given = .ok v := by
  have hmap : ∀ {x : Except FlagFault FlagValue}, x.map some = .ok (some v) → x = .ok v := by
    intro x hx
    cases x with
    | error why => cases hx
    | ok w => rw [Option.some.inj (Except.ok.inj hx)]
  cases given with
  | nothing => cases h
  | words t => exact .inl ⟨t, hmap h⟩
  | _ => exact .inr (hmap h)

/-- Setting a flag puts a value that the flag accepts in the place that the table has for it. -/
theorem exists_put_of_set {name : Text} {given : Given} (h : q.set name given = .ok r) :
    ∃ i f w, table[i]? = some f ∧ accept f given = .ok w ∧ r = q.put i w := by
  unfold set at h
  split at h
  · next f i hfind hindex =>
    -- the flag that is found is the one at the index that is found
    rw [index?] at hindex
    rw [List.find?_eq_bind_findIdx?_getElem?, hindex, Option.bind_some] at hfind
    cases haccept : accept f given with
    | error why =>
      rw [haccept] at h
      cases h
    | ok w =>
      rw [haccept] at h
      exact ⟨i, f, w, hfind, haccept, (Except.ok.inj h).symm⟩
  · cases h

/-- With a value put in a place, the other places are as before. -/
theorem mem_pairs_put {i : Nat} {w : Option FlagValue} {p : Flag × Option FlagValue}
    (h : p ∈ (q.put i w).pairs) : p ∈ q.pairs ∨ (table[i]? = some p.1 ∧ p.2 = w) := by
  obtain ⟨j, hj, rfl⟩ := List.mem_iff_getElem.mp h
  simp only [pairs, put, List.length_zip, List.length_set] at hj
  simp only [pairs, put, List.getElem_zip, List.getElem_set]
  split
  · next hij =>
    subst hij
    exact .inr ⟨List.getElem?_eq_getElem _, rfl⟩
  · refine .inl (List.mem_iff_getElem.mpr ⟨j, ?_, List.getElem_zip⟩)
    rw [List.length_zip]
    exact hj

/-- Setting a flag keeps the flags typed, whatever it is set to. -/
theorem typed_of_set (ht : table = .standard ∨ table = .extended) (hq : q.Typed) {name : Text}
    {given : Given} (h : q.set name given = .ok r) : r.Typed := by
  obtain ⟨i, f, w, hf, haccept, rfl⟩ := exists_put_of_set h
  intro p hp v hv
  rcases mem_pairs_put hp with hp | ⟨hplace, rfl⟩
  · exact hq p hp v hv
  · obtain rfl : f = p.1 := Option.some.inj (hf.symm.trans hplace)
    have hknown := FlagTable.mem_of_known ht (List.mem_of_getElem? hf)
    rw [hv] at haccept
    rcases read_or_take_of_accept haccept with ⟨t, hread⟩ | htake
    · exact Flag.typed_of_read hknown hread
    · exact Flag.typed_of_take hknown htake

/-! ### What is written -/

/-- The names of the flags that are set, each with the text of its value, in the order of the
table. -/
def settings (q : Flags table) : List (List Text) :=
  q.pairs.filterMap fun p => p.2.map fun v => [p.1.name, p.1.write v]

/-- The text is empty if no flag is set, or else it is one question mark with the settings behind
it, which are separated by `&` and have `=` inside. -/
def Writes (q : Flags table) (query : Text) : Prop :=
  (q.settings = [] ∧ query = []) ∨
    ∃ t, query = '?' :: t ∧ '?' ∉ t ∧ (pieces '&' t).map (pieces '=') = q.settings

namespace Typed

/-- The parts of a token of typed flags are plain. -/
theorem plain_of_mem (ht : table = .standard ∨ table = .extended) (hq : q.Typed) {f : Flag}
    {v : FlagValue} (h : (f, some v) ∈ q.pairs) :
    Identifier.Plain f.name ∧ Identifier.Plain (f.write v) :=
  ⟨(hq.told ht).plain _ h, ((hq.told ht).distinct _ h).plain v (hq _ h v rfl)⟩

/-- Each token is a setting with an equality sign inside. -/
theorem map_tokens (ht : table = .standard ∨ table = .extended) (hq : q.Typed) :
    q.tokens.map (pieces '=') = q.settings := by
  change (tokensOf q.pairs).map (pieces '=') = _
  rw [tokensOf, List.map_filterMap]
  refine List.filterMap_congr fun p hp => ?_
  obtain ⟨f, w⟩ := p
  cases w with
  | none => rfl
  | some v =>
    obtain ⟨hname, hvalue⟩ := hq.plain_of_mem ht hp
    have hcut : pieces '=' (f.token v) = [f.name, f.write v] := by
      rw [Flag.token, pieces_append_cons (hname.not_mem (by decide)),
        pieces_eq_self (hvalue.not_mem (by decide))]
    exact congrArg some hcut

private theorem question_not_mem_tokens (ht : table = .standard ∨ table = .extended)
    (hq : q.Typed) :
    '?' ∉ joined "&" q.tokens := by
  intro hm
  rcases mem_joined hm with hm | ⟨t, hmem, hm⟩
  · exact absurd hm (by decide)
  · obtain ⟨f, v, hf, rfl⟩ := mem_tokensOf hmem
    obtain ⟨hname, hvalue⟩ := hq.plain_of_mem ht hf
    rw [Flag.token, List.mem_append, List.mem_cons] at hm
    rcases hm with hm | hm | hm
    · exact hname.not_mem (by decide) hm
    · exact absurd hm (by decide)
    · exact hvalue.not_mem (by decide) hm

/-- **Queries.** What is written for typed flags is their settings. -/
theorem writes (ht : table = .standard ∨ table = .extended) (hq : q.Typed) :
    q.Writes q.toQuery := by
  rw [Writes, ← hq.map_tokens ht]
  by_cases hnil : q.tokens = []
  · refine .inl ⟨?_, toQuery_of_tokens_eq_nil hnil⟩
    rw [hnil]
    rfl
  · have hpieces : pieces '&' (joined "&" q.tokens) = q.tokens :=
      pieces_joined hnil fun t hm => (hq.told ht).ampersand_not_mem hm
    exact .inr ⟨_, toQuery_of_tokens_ne_nil hnil, hq.question_not_mem_tokens ht,
      congrArg _ hpieces⟩

end Typed

end Flags

end EntryRef
