import EntryRef.Proofs.Flag.Typed
import EntryRef.Proofs.Reference.Survival
import Mathlib.Data.List.Induction

/-!
# What the tokens of a query settle

A flag `Takes` a value from a token that is its name, the only equality sign, and a text that it
reads as the value. Reading a query settles each flag by the last token that it takes a value from
(`Flag.settled_getLast?`), whatever stands in the other tokens: they may have no equality sign or
several, name another flag, or have a value that the flag refuses.

It follows that of two queries with an ampersand between them the second one has precedence, flag by
flag. None of this depends on what the flags of the table are. That flags are read back from what is
written for them does, and holds of both tables of this library.

## Main statements

* `Flag.ofToken?_eq_some_iff`: which tokens give a flag a value,
* `Flags.values_ofQuery_append`: two queries in a row,
* `Flags.ofQuery_law`: the laws of reading queries.
-/

namespace EntryRef

open Text

/-! ### Tokens -/

namespace Flag

variable {f : Flag} {v : FlagValue} {t : Text} {ts : List Text}

/-- The token is the name of the flag, the only equality sign, and a text that the flag reads as the
value. -/
def Takes (f : Flag) (t : Text) (v : FlagValue) : Prop :=
  ∃ value, t = f.name ++ '=' :: value ∧ t.count '=' = 1 ∧ f.read value = .ok v

/-- A token with one equality sign has two pieces. -/
theorem pieces_equals_iff {name value : Text} :
    pieces '=' t = [name, value] ↔ t = name ++ '=' :: value ∧ t.count '=' = 1 := by
  constructor
  · intro h
    have ht : t = name ++ '=' :: value := by
      rw [← joined_pieces '=' t, h]
      simp [joined]
    have hname : '=' ∉ name := not_mem_of_mem_pieces (h ▸ List.mem_cons_self)
    have hvalue : '=' ∉ value :=
      not_mem_of_mem_pieces (h ▸ List.mem_cons_of_mem _ List.mem_cons_self)
    refine ⟨ht, ?_⟩
    rw [ht, List.count_append, List.count_cons_self, List.count_eq_zero_of_not_mem hname,
      List.count_eq_zero_of_not_mem hvalue]
  · rintro ⟨rfl, hcount⟩
    rw [List.count_append, List.count_cons_self] at hcount
    have hname : '=' ∉ name := List.count_eq_zero.mp (by omega)
    have hvalue : '=' ∉ value := List.count_eq_zero.mp (by omega)
    rw [pieces_append_cons hname, pieces_eq_self hvalue]

private theorem ofToken?_eq_some_iff : f.ofToken? t = some v ↔ f.Takes t v := by
  constructor
  · intro h
    rw [ofToken?] at h
    split at h
    · next name value hpieces =>
      obtain ⟨ht, hcount⟩ := pieces_equals_iff.mp hpieces
      split at h
      · next hname =>
        rcases hread : f.read value with why | w
        · rw [hread] at h
          cases h
        · rw [hread] at h
          exact ⟨value, hname ▸ ht, hcount, hread.trans (congrArg Except.ok (Option.some.inj h))⟩
      · cases h
    · cases h
  · rintro ⟨value, ht, hcount, hread⟩
    rw [ofToken?, pieces_equals_iff.mpr ⟨ht, hcount⟩]
    simp only [if_true, hread]
    rfl

private theorem ofToken?_eq_none_iff : f.ofToken? t = none ↔ ∀ v, ¬f.Takes t v := by
  simp only [← ofToken?_eq_some_iff, Option.eq_none_iff_forall_ne_some, Ne]

/-- The value is that of the last token that gives the flag one, or there is neither such a token
nor a value. -/
def Settled (f : Flag) (ts : List Text) : Option FlagValue → Prop
  | none => ∀ t ∈ ts, ∀ v, ¬f.Takes t v
  | some v => ∃ earlier t later, ts = earlier ++ t :: later ∧ f.Takes t v ∧
      ∀ t ∈ later, ∀ w, ¬f.Takes t w

/-- Another token behind the others takes precedence if it gives the flag a value. -/
theorem Settled.concat {w : Option FlagValue} (h : f.Settled ts w) (t : Text) :
    f.Settled (ts ++ [t]) ((f.ofToken? t).or w) := by
  cases htoken : f.ofToken? t with
  | some v => exact ⟨ts, t, [], rfl, ofToken?_eq_some_iff.mp htoken, nofun⟩
  | none =>
    have hother : ∀ v, ¬f.Takes t v := ofToken?_eq_none_iff.mp htoken
    cases w with
    | none =>
      intro s hs
      rcases List.mem_append.mp hs with hs | hs
      · exact h s hs
      · rwa [List.mem_singleton.mp hs]
    | some v =>
      obtain ⟨earlier, s, later, rfl, htakes, hlater⟩ := h
      refine ⟨earlier, s, later ++ [t], by simp, htakes, fun r hr => ?_⟩
      rcases List.mem_append.mp hr with hr | hr
      · exact hlater r hr
      · rwa [List.mem_singleton.mp hr]

/-- The last value that the tokens give settles the flag. -/
theorem settled_getLast? (f : Flag) (ts : List Text) :
    f.Settled ts (ts.filterMap f.ofToken?).getLast? := by
  -- the tokens are added at the end, one after another
  induction ts using List.reverseRecOn with
  | nil => exact nofun
  | append_singleton ts t ih =>
    have hlast : ((ts ++ [t]).filterMap f.ofToken?).getLast? =
        (f.ofToken? t).or (ts.filterMap f.ofToken?).getLast? := by
      rw [List.filterMap_append, List.getLast?_append]
      cases htoken : f.ofToken? t with
      | none => simp [htoken]
      | some v => simp [htoken]
    rw [hlast]
    exact ih.concat t

end Flag

/-! ### Queries -/

namespace Flags

variable {table : FlagTable}

/-- Each flag of the table is settled by the tokens of the query. -/
theorem settled_of_mem_pairs {query : Text} {p : Flag × Option FlagValue}
    (h : p ∈ (ofQuery table query).pairs) : p.1.Settled (pieces '&' query) p.2 := by
  obtain ⟨i, hi, rfl⟩ := List.mem_iff_getElem.mp h
  simp only [pairs, ofQuery, List.getElem_zip, List.getElem_map]
  exact Flag.settled_getLast? _ _

/-- Of two queries in a row the second one has precedence, flag by flag. -/
theorem values_ofQuery_append (table : FlagTable) (a b : Text) :
    (ofQuery table (a ++ '&' :: b)).values =
      List.zipWith Option.or (ofQuery table b).values (ofQuery table a).values := by
  simp only [ofQuery, pieces_append_sep, List.filterMap_append, List.getLast?_append,
    List.zipWith_map, List.zipWith_self]

/-- Nothing is settled by a token that no flag takes a value from. -/
theorem ofQuery_eq_none {t : Text} (hsep : '&' ∉ t) (ht : ∀ f ∈ table, ∀ v, ¬f.Takes t v) :
    ofQuery table t = none table := by
  rw [eq_iff_values_eq]
  refine List.map_congr_left fun f hf => ?_
  rw [pieces_eq_self hsep, List.filterMap_cons_none (Flag.ofToken?_eq_none_iff.mpr (ht f hf))]
  rfl

theorem zipWith_or_none (q : Flags table) :
    List.zipWith Option.or q.values (none table).values = q.values := by
  refine List.ext_getElem ?_ fun i hi hvalue => ?_
  · simp [none, q.length_values]
  · simp [none]

private theorem zipWith_none_or (q : Flags table) :
    List.zipWith Option.or (none table).values q.values = q.values := by
  refine List.ext_getElem ?_ fun i hi hvalue => ?_
  · simp [none, q.length_values]
  · simp [none]

/-- A token that no flag takes a value from may be left out, wherever it stands. -/
theorem ofQuery_insert {t : Text} (hsep : '&' ∉ t) (ht : ∀ f ∈ table, ∀ v, ¬f.Takes t v)
    (a b : Text) :
    ofQuery table (t ++ '&' :: b) = ofQuery table b ∧
    ofQuery table (a ++ '&' :: t) = ofQuery table a ∧
    ofQuery table (a ++ '&' :: (t ++ '&' :: b)) = ofQuery table (a ++ '&' :: b) := by
  have hnone : ofQuery table t = none table := ofQuery_eq_none hsep ht
  have hfront : ofQuery table (t ++ '&' :: b) = ofQuery table b := by
    rw [eq_iff_values_eq, values_ofQuery_append, hnone, zipWith_or_none]
  refine ⟨hfront, ?_, ?_⟩
  · rw [eq_iff_values_eq, values_ofQuery_append, hnone, zipWith_none_or]
  · rw [eq_iff_values_eq, values_ofQuery_append, hfront, values_ofQuery_append]

/-- Flags that keep their values are read back from their query without its question mark. -/
theorem Kept.ofQuery_tail_toQuery {q : Flags table} (hq : q.Kept) (h : table.Lawful) :
    ofQuery table q.toQuery.tail = q := by
  have htail : q.toQuery.tail = joined "&" q.tokens := by
    by_cases hnil : q.tokens = []
    · rw [toQuery_of_tokens_eq_nil hnil, hnil]
      rfl
    · rw [toQuery_of_tokens_ne_nil hnil, List.tail_cons]
  rw [htail, ofQuery_joined_tokens h hq]

/-- **Queries.** Whatever the flags of the table are, of two queries in a row the second one has
precedence, flag by flag; each flag has the value of the last token that it takes one from, and none
if there is no such token; and other tokens may be left out. Flags of the two tables of this library
with values of their types are read back from their query without its question mark. -/
theorem ofQuery_law (table : FlagTable) :
    (∀ a b : Text, (ofQuery table (a ++ '&' :: b)).values =
      List.zipWith Option.or (ofQuery table b).values (ofQuery table a).values) ∧
    (∀ (query : Text), ∀ p ∈ (ofQuery table query).pairs,
      p.1.Settled (pieces '&' query) p.2) ∧
    (∀ t : Text, '&' ∉ t → (∀ f ∈ table, ∀ v, ¬f.Takes t v) → ∀ a b : Text,
      ofQuery table (t ++ '&' :: b) = ofQuery table b ∧
      ofQuery table (a ++ '&' :: t) = ofQuery table a ∧
      ofQuery table (a ++ '&' :: (t ++ '&' :: b)) = ofQuery table (a ++ '&' :: b)) ∧
    (table = .standard ∨ table = .extended → ∀ q : Flags table, q.Admitted →
      (q.toQuery = [] ∨ q.toQuery.head? = some '?') ∧ ofQuery table q.toQuery.tail = q) := by
  refine ⟨values_ofQuery_append table, fun query p hp => settled_of_mem_pairs hp,
    fun t hsep ht a b => ofQuery_insert hsep ht a b, fun ht q hq => ⟨?_, ?_⟩⟩
  · refine q.toQuery_eq_nil_or_cons.imp_right ?_
    rintro ⟨r, hr⟩
    rw [hr, List.head?_cons]
  · exact (hq.kept ht).ofQuery_tail_toQuery (FlagTable.lawful_of_known ht)

/-- A value that is refused does not erase an earlier one, and a second equality sign spoils a
token. -/
theorem ofQuery_law_depth :
    (ofQuery .extended "depth=+0_7&source=true&depth=x&source=no".toList).values =
        [some (.truth false), some (.number 7)] ∧
      ofQuery .extended "depth=7&depth=8=9&source=no".toList =
        ofQuery .extended "depth=7&source=no".toList ∧
      ∃ q : Flags .extended, q.values = [some (.truth false), some (.number 7)] ∧ q.Admitted ∧
        ofQuery .extended q.toQuery.tail = q := by
  obtain ⟨hrow, -, hother, hback⟩ := ofQuery_law .extended
  have hspoiled : ∀ f ∈ FlagTable.extended, ∀ v, ¬f.Takes "depth=8=9".toList v := by
    intro f hf
    rw [← Flag.ofToken?_eq_none_iff]
    rcases FlagTable.mem_of_known (.inr rfl) hf with rfl | rfl <;> rfl
  have hadmitted :
      (⟨[some (.truth false), some (.number 7)], rfl⟩ : Flags .extended).Admitted := by
    intro p hp v hv
    have hpairs : p = (Flag.source, some (.truth false)) ∨ p = (Flag.depth, some (.number 7)) := by
      simpa [pairs, FlagTable.extended] using hp
    rcases hpairs with rfl | rfl
    · obtain rfl : FlagValue.truth false = v := Option.some.inj hv
      exact ⟨false, rfl⟩
    · obtain rfl : FlagValue.number 7 = v := Option.some.inj hv
      exact ⟨⟨0, rfl⟩, readable_of_readInt (s := "7".toList) rfl⟩
  refine ⟨?_, ?_, _, rfl, hadmitted, (hback (.inr rfl) _ hadmitted).2⟩
  · exact (hrow "depth=+0_7&source=true".toList "depth=x&source=no".toList).trans rfl
  · exact (hother "depth=8=9".toList (by decide) hspoiled "depth=7".toList "source=no".toList).2.2

end Flags

end EntryRef
