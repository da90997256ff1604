import EntryRef.Text.Basic
import Mathlib.Data.List.Flatten
import Mathlib.Data.List.TakeWhile

/-!
# Cutting texts and joining them

The cuts of `Text` undo joining. A text `p` without the character `c` is what `before c` takes from
`p ++ c :: r`, and `r` is what `after? c` leaves; texts without `c` are the pieces of their joining.
In the other direction `before_append_after` says that nothing is lost where a text is cut in two.

Every lemma asks that the part in front be free of the separator, and nothing of what follows.
-/

namespace EntryRef.Text

section Cuts

variable {α : Type} [DecidableEq α] {c : α} {p q r s : List α}

/-! ### At the first occurrence -/

@[simp]
theorem before_nil (c : α) : before c [] = [] := rfl

@[simp]
theorem before_cons_self (c : α) (r : List α) : before c (c :: r) = [] := by
  simp [before]

theorem before_cons_of_ne {x : α} (h : x ≠ c) (r : List α) :
    before c (x :: r) = x :: before c r := by
  rw [before, List.takeWhile_cons_of_pos (by simpa using h)]
  rfl

@[simp]
theorem after?_nil (c : α) : after? c [] = none := rfl

@[simp]
theorem after?_cons_self (c : α) (r : List α) : after? c (c :: r) = some r := by
  simp [after?]

private theorem after?_cons_of_ne {x : α} (h : x ≠ c) (r : List α) :
    after? c (x :: r) = after? c r := by
  rw [after?, List.dropWhile_cons_of_pos (by simpa using h)]
  rfl

/-- A front without the separator passes the first cut whole. -/
theorem before_append (h : c ∉ p) (q : List α) : before c (p ++ q) = p ++ before c q :=
  List.takeWhile_append_of_pos fun x hx => by
    rw [bne_iff_ne]
    exact fun hxc => h (hxc ▸ hx)

/-- What stands behind the first mark does not depend on what comes before it. -/
theorem after?_append (h : c ∉ p) (q : List α) : after? c (p ++ q) = after? c q := by
  rw [after?, List.dropWhile_append_of_pos, after?]
  intro x hx
  rw [bne_iff_ne]
  exact fun hxc => h (hxc ▸ hx)

/-- The first mark ends the front part. -/
theorem before_append_cons (h : c ∉ p) (r : List α) : before c (p ++ c :: r) = p := by
  rw [before_append h, before_cons_self, List.append_nil]

theorem after?_append_cons (h : c ∉ p) (r : List α) : after? c (p ++ c :: r) = some r := by
  rw [after?_append h, after?_cons_self]

/-- There is only one first separator. -/
theorem eq_of_append_cons_eq (hp : c ∉ p) (hq : c ∉ q) (h : p ++ c :: r = q ++ c :: s) : p = q := by
  rw [← before_append_cons hp r, h, before_append_cons hq]

theorem after?_eq_none (h : c ∉ s) : after? c s = none := by
  have hcut : after? c (s ++ []) = after? c [] := after?_append h []
  rwa [List.append_nil, after?_nil] at hcut

/-- Without a mark, all is the front part. -/
theorem before_eq_self (h : c ∉ s) : before c s = s := by
  have hcut : before c (s ++ []) = s ++ before c [] := before_append h []
  rwa [before_nil, List.append_nil] at hcut

/-- Nothing is lost where a text is cut at the first separator. -/
theorem before_append_after (h : after? c s = some r) : before c s ++ c :: r = s := by
  induction s with
  | nil => simp at h
  | cons x s ih =>
    by_cases hx : x = c
    · subst hx
      rw [after?_cons_self, Option.some.injEq] at h
      rw [before_cons_self, List.nil_append, h]
    · rw [after?_cons_of_ne hx] at h
      rw [before_cons_of_ne hx, List.cons_append, ih h]

omit [DecidableEq α] in
/-- A text is cut in the same way for conditions that agree on it. -/
theorem takeWhile_dropWhile_congr {f g : α → Bool} (h : ∀ x ∈ s, f x = g x) :
    s.takeWhile f = s.takeWhile g ∧ s.dropWhile f = s.dropWhile g := by
  induction s with
  | nil => exact ⟨rfl, rfl⟩
  | cons x s ih =>
    rw [List.forall_mem_cons] at h
    obtain ⟨htake, hdrop⟩ := ih h.2
    rw [List.takeWhile_cons, List.takeWhile_cons, List.dropWhile_cons, List.dropWhile_cons, h.1,
      htake, hdrop]
    exact ⟨rfl, rfl⟩

/-! ### At every occurrence -/

@[simp]
theorem pieces_nil (c : α) : pieces c [] = [[]] := rfl

@[simp]
theorem pieces_cons_self (c : α) (r : List α) : pieces c (c :: r) = [] :: pieces c r := by
  simp [pieces]

theorem pieces_ne_nil (c : α) (s : List α) : pieces c s ≠ [] := by
  cases s with
  | nil => simp
  | cons x s =>
    simp only [pieces, List.foldr_cons]
    split
    · simp
    · split <;> simp

private theorem pieces_cons_of_ne {x : α} {ps : List (List α)} (hx : x ≠ c)
    (h : pieces c r = p :: ps) :
    pieces c (x :: r) = (x :: p) :: ps := by
  rw [pieces] at h ⊢
  rw [List.foldr_cons, h, if_neg hx]

/-- A front without the separator is joined to the first piece of the rest. -/
theorem pieces_append {ps : List (List α)} (hp : c ∉ p) (h : pieces c r = q :: ps) :
    pieces c (p ++ r) = (p ++ q) :: ps := by
  induction p with
  | nil => exact h
  | cons x p ih =>
    rw [List.mem_cons, not_or] at hp
    exact pieces_cons_of_ne (Ne.symm hp.1) (ih hp.2)

theorem pieces_eq_self (h : c ∉ p) : pieces c p = [p] := by
  have hcut : pieces c (p ++ []) = [p ++ []] := pieces_append h (pieces_nil c)
  rwa [List.append_nil] at hcut

theorem pieces_append_cons (h : c ∉ p) (r : List α) :
    pieces c (p ++ c :: r) = p :: pieces c r := by
  have hcut : pieces c (p ++ c :: r) = (p ++ []) :: pieces c r :=
    pieces_append h (pieces_cons_self c r)
  rwa [List.append_nil] at hcut

/-- What tells the separator from other characters changes nothing about the cuts. -/
theorem map_pieces {β : Type} [DecidableEq β] {f : α → β} (hf : Function.Injective f) (c : α)
    (s : List α) : (pieces c s).map (List.map f) = pieces (f c) (s.map f) := by
  induction s with
  | nil => rfl
  | cons x s ih =>
    by_cases hx : x = c
    · rw [hx, pieces_cons_self, List.map_cons, ih, List.map_cons, pieces_cons_self]
      rfl
    · obtain ⟨p, ps, hps⟩ := List.exists_cons_of_ne_nil (pieces_ne_nil c s)
      rw [hps, List.map_cons] at ih
      rw [pieces_cons_of_ne hx hps, List.map_cons, List.map_cons, List.map_cons,
        pieces_cons_of_ne (hf.ne hx) ih.symm]

/-- Nothing but the separator is lost where a text is cut in two at it. -/
theorem pieces_append_sep (p r : List α) : pieces c (p ++ c :: r) = pieces c p ++ pieces c r := by
  induction p with
  | nil => exact pieces_cons_self c r
  | cons x p ih =>
    by_cases hx : x = c
    · subst hx
      rw [List.cons_append, pieces_cons_self, pieces_cons_self, ih, List.cons_append]
    · -- the first piece of either side gets one more character
      obtain ⟨q, ps, hps⟩ := List.exists_cons_of_ne_nil (pieces_ne_nil c p)
      rw [hps] at ih
      rw [List.cons_append, pieces_cons_of_ne hx hps, pieces_cons_of_ne hx ih]
      rfl

/-- A piece of a text is empty, or a piece of the rest, or one with the first character in front of
it. -/
theorem mem_pieces_cons {x : α} (h : p ∈ pieces c (x :: s)) :
    p = [] ∨ p ∈ pieces c s ∨ x ≠ c ∧ ∃ q ∈ pieces c s, p = x :: q := by
  obtain ⟨q, ps, hps⟩ := List.exists_cons_of_ne_nil (pieces_ne_nil c s)
  by_cases hx : x = c
  · rw [hx, pieces_cons_self] at h
    exact (List.mem_cons.mp h).imp_right .inl
  · rw [pieces_cons_of_ne hx hps] at h
    rcases List.mem_cons.mp h with rfl | h
    · exact .inr (.inr ⟨hx, q, hps ▸ List.mem_cons_self, rfl⟩)
    · exact .inr (.inl (hps ▸ List.mem_cons_of_mem q h))

/-- No piece has a mark. -/
theorem not_mem_of_mem_pieces (h : p ∈ pieces c s) : c ∉ p := by
  induction s generalizing p with
  | nil =>
    obtain rfl : p = [] := List.mem_singleton.mp h
    exact List.not_mem_nil
  | cons x s ih =>
    rcases mem_pieces_cons h with rfl | h | ⟨hx, q, hq, rfl⟩
    · exact List.not_mem_nil
    · exact ih h
    · rw [List.mem_cons, not_or]
      exact ⟨Ne.symm hx, ih hq⟩

/-- Pieces have no characters of their own. -/
theorem subset_of_mem_pieces (h : p ∈ pieces c s) : p ⊆ s := by
  induction s generalizing p with
  | nil =>
    obtain rfl : p = [] := List.mem_singleton.mp h
    exact List.nil_subset _
  | cons x s ih =>
    rcases mem_pieces_cons h with rfl | h | ⟨-, q, hq, rfl⟩
    · exact List.nil_subset _
    · exact List.subset_cons_of_subset _ (ih h)
    · exact List.cons_subset_cons x (ih hq)

omit [DecidableEq α] in
theorem joined_cons_cons (sep p q : List α) (ps : List (List α)) :
    joined sep (p :: q :: ps) = p ++ sep ++ joined sep (q :: ps) := by
  simp [joined]

omit [DecidableEq α] in
theorem map_joined {β : Type} (f : α → β) (sep : List α) (ps : List (List α)) :
    (joined sep ps).map f = joined (sep.map f) (ps.map (List.map f)) := by
  cases ps with
  | nil => rfl
  | cons p ps => simp [joined, List.map_flatMap, List.flatMap_map]

/-- Texts without the separator are the pieces of their joining. -/
theorem pieces_joined {ps : List (List α)} (hps : ps ≠ []) (h : ∀ p ∈ ps, c ∉ p) :
    pieces c (joined [c] ps) = ps := by
  induction ps with
  | nil => exact absurd rfl hps
  | cons p ps ih =>
    have hp : c ∉ p := h p List.mem_cons_self
    cases ps with
    | nil => simpa [joined] using pieces_eq_self hp
    | cons q qs =>
      rw [joined_cons_cons, List.append_assoc, List.singleton_append, pieces_append_cons hp,
        ih (List.cons_ne_nil _ _) fun r hr => h r (List.mem_cons_of_mem p hr)]

/-- Pieces make the text that they have been cut from. -/
theorem joined_pieces (c : α) (s : List α) : joined [c] (pieces c s) = s := by
  induction s with
  | nil => rfl
  | cons x s ih =>
    obtain ⟨p, ps, hps⟩ := List.exists_cons_of_ne_nil (pieces_ne_nil c s)
    rw [hps] at ih
    by_cases hx : x = c
    · rw [hx, pieces_cons_self, hps, joined_cons_cons, ih]
      rfl
    · rw [pieces_cons_of_ne hx hps]
      exact congrArg (x :: ·) ih

omit [DecidableEq α] in
/-- Leaving texts out leaves characters of the joining out. -/
theorem joined_sublist (sep : List α) {ps qs : List (List α)} (h : ps.Sublist qs) :
    (joined sep ps).Sublist (joined sep qs) := by
  induction h with
  | slnil => exact List.Sublist.refl _
  | @cons ps qs q h ih =>
    cases qs with
    | nil =>
      rw [List.sublist_nil.mp h]
      exact List.nil_sublist _
    | cons r qs =>
      rw [joined_cons_cons]
      exact ih.trans (List.sublist_append_right _ _)
  | cons_cons q h => exact (List.append_sublist_append_left q).mpr (h.flatMap (sep ++ ·))

omit [DecidableEq α] in
/-- The characters of a joining are those of the separator and of the texts. -/
theorem mem_joined {sep : List α} {ps : List (List α)} {x : α} (h : x ∈ joined sep ps) :
    x ∈ sep ∨ ∃ p ∈ ps, x ∈ p := by
  cases ps with
  | nil => simp [joined] at h
  | cons p ps =>
    rw [joined, List.mem_append, List.mem_flatMap] at h
    rcases h with h | ⟨q, hq, h⟩
    · exact .inr ⟨p, List.mem_cons_self, h⟩
    · rcases List.mem_append.mp h with h | h
      · exact .inl h
      · exact .inr ⟨q, List.mem_cons_of_mem p hq, h⟩

omit [DecidableEq α] in
theorem mem_joined_of_mem {sep : List α} {ps : List (List α)} {x : α} (hp : p ∈ ps) (hx : x ∈ p) :
    x ∈ joined sep ps := by
  cases ps with
  | nil => cases hp
  | cons q ps =>
    rw [joined, List.mem_append, List.mem_flatMap]
    rcases List.mem_cons.mp hp with rfl | hp
    · exact .inl hx
    · exact .inr ⟨p, hp, List.mem_append_right sep hx⟩

end Cuts

/-! ### Behind the last occurrence -/

variable {c : Char} {p q r s : Text}

/-- A cut behind the last separator leaves a rest without it. -/
theorem not_mem_afterLast (c : Char) (s : Text) : c ∉ afterLast c s := by
  rw [afterLast, List.mem_reverse]
  exact not_mem_before c s.reverse

theorem afterLast_subset (c : Char) (s : Text) : afterLast c s ⊆ s := by
  intro x hx
  rw [← throughLast_append_afterLast c s]
  exact List.mem_append_right _ hx

/-- What stands before the last separator does not matter for what stands behind it. -/
theorem afterLast_append (h : c ∈ q) (p : Text) : afterLast c (p ++ q) = afterLast c q := by
  -- the separators at the end of the front are not reached from behind
  have hlt : (q.reverse.takeWhile (· != c)).length ≠ q.reverse.length := by
    intro heq
    have hall := List.takeWhile_eq_self_iff.mp ((List.takeWhile_prefix _).eq_of_length heq)
    have hc : (c != c) = true := hall c (List.mem_reverse.mpr h)
    rw [bne_self_eq_false] at hc
    exact Bool.false_ne_true hc
  rw [afterLast, List.reverse_append, List.takeWhile_append, if_neg hlt]
  rfl

/-- From behind, a cut at the last separator is one at the first. -/
theorem afterLast_eq_reverse (c : Char) (s : Text) :
    afterLast c s = (before c s.reverse).reverse := rfl

theorem afterLast_eq_self (h : c ∉ s) : afterLast c s = s := by
  rw [afterLast_eq_reverse, before_eq_self (mt List.mem_reverse.mp h), List.reverse_reverse]

/-- What stands behind the last mark. -/
theorem afterLast_append_cons (h : c ∉ r) (p : Text) : afterLast c (p ++ c :: r) = r := by
  rw [afterLast_eq_reverse, List.reverse_append, List.reverse_cons, List.append_assoc,
    List.singleton_append, before_append_cons (mt List.mem_reverse.mp h), List.reverse_reverse]

theorem afterLast_cons_self (c : Char) (s : Text) : afterLast c (c :: s) = afterLast c s := by
  by_cases h : c ∈ s
  · exact afterLast_append h [c]
  · rw [afterLast_eq_self h]
    exact afterLast_append_cons h []

/-- A text can be cut at the last separator. -/
theorem exists_append_cons_of_mem (h : c ∈ s) : ∃ p r, s = p ++ c :: r ∧ c ∉ r := by
  obtain ⟨p, r, hs, hp⟩ := List.eq_append_cons_of_mem (List.mem_reverse.mpr h)
  refine ⟨r.reverse, p.reverse, ?_, mt List.mem_reverse.mp hp⟩
  rw [← List.reverse_reverse s, hs]
  simp

/-- What stands before the last separator stays in front of it. -/
theorem throughLast_append (h : c ∈ q) (p : Text) :
    throughLast c (p ++ q) = p ++ throughLast c q := by
  have hsplit : throughLast c (p ++ q) ++ afterLast c q = p ++ q := by
    rw [← afterLast_append h p, throughLast_append_afterLast]
  refine List.append_cancel_right (hsplit.trans ?_)
  rw [List.append_assoc, throughLast_append_afterLast]

theorem throughLast_append_cons (h : c ∉ r) (p : Text) :
    throughLast c (p ++ c :: r) = p ++ [c] := by
  have hsplit := throughLast_append_afterLast c (p ++ c :: r)
  rw [afterLast_append_cons h, List.append_cons p c r] at hsplit
  rw [List.append_cons p c r]
  exact List.append_cancel_right hsplit

theorem throughLast_eq_nil (h : c ∉ s) : throughLast c s = [] := by
  have hsplit := throughLast_append_afterLast c s
  rw [afterLast_eq_self h] at hsplit
  exact List.append_left_eq_self.mp hsplit

/-- A text without the separator that is put behind the last one is cut off there again. -/
theorem afterLast_throughLast_append (h : c ∉ r) (s : Text) :
    afterLast c (throughLast c s ++ r) = r := by
  by_cases hs : c ∈ s
  · obtain ⟨p, t, rfl, ht⟩ := exists_append_cons_of_mem hs
    rw [throughLast_append_cons ht, ← List.append_cons, afterLast_append_cons h]
  · rw [throughLast_eq_nil hs, List.nil_append, afterLast_eq_self h]

/-- What is put behind the last mark does not move it, if it has none. -/
theorem throughLast_throughLast_append (h : c ∉ r) (s : Text) :
    throughLast c (throughLast c s ++ r) = throughLast c s := by
  have hsplit := throughLast_append_afterLast c (throughLast c s ++ r)
  rw [afterLast_throughLast_append h] at hsplit
  exact List.append_cancel_right hsplit

/-- The first and the last separator are the same if and only if there is only one. -/
theorem before_append_afterLast_iff (h : c ∈ s) :
    before c s ++ c :: afterLast c s = s ↔ s.count c = 1 := by
  obtain ⟨p, r, rfl, hp⟩ := List.eq_append_cons_of_mem h
  have hlast : afterLast c (p ++ c :: r) = afterLast c r := by
    rw [afterLast_append List.mem_cons_self, afterLast_cons_self]
  have hcount : (p ++ c :: r).count c = r.count c + 1 := by
    rw [List.count_append, List.count_eq_zero_of_not_mem hp, List.count_cons_self, Nat.zero_add]
  rw [before_append_cons hp, hlast, List.append_cancel_left_eq, List.cons.injEq,
    and_iff_right rfl, hcount, Nat.add_eq_right, List.count_eq_zero]
  exact ⟨fun hr => hr ▸ not_mem_afterLast c r, afterLast_eq_self⟩

/-! ### Leading and trailing characters -/

/-- Nothing is dropped from the front of a text that does not start with the character. -/
theorem dropWhile_eq_self_iff {α : Type} [DecidableEq α] {c : α} {s : List α} :
    s.dropWhile (· == c) = s ↔ s.head? ≠ some c := by
  cases s with
  | nil => exact iff_of_true rfl (by simp)
  | cons x r =>
    by_cases hx : x = c
    · -- what is left would be shorter
      refine iff_of_false (fun h => ?_) (by simp [hx])
      rw [List.dropWhile_cons_of_pos (by simpa using hx)] at h
      have hle : (r.dropWhile (· == c)).length ≤ r.length := (List.dropWhile_sublist _).length_le
      rw [h, List.length_cons] at hle
      omega
    · exact iff_of_true (List.dropWhile_cons_of_neg (by simpa using hx)) (by simpa using hx)

/-- No mark is left in front. -/
theorem head?_dropWhile_ne (c : Char) (s : Text) : (s.dropWhile (· == c)).head? ≠ some c := by
  induction s with
  | nil => simp
  | cons x r ih =>
    by_cases hx : x = c
    · rwa [List.dropWhile_cons_of_pos (by simpa using hx)]
    · rw [List.dropWhile_cons_of_neg (by simpa using hx)]
      simpa using hx

/-- What is left ends as the text does, if anything is left. -/
theorem getLast?_dropWhile_iff {x : Char} : (s.dropWhile (· == c)).getLast? = some x ↔
    s.dropWhile (· == c) ≠ [] ∧ s.getLast? = some x := by
  obtain ⟨front, hfront⟩ := List.dropWhile_suffix (l := s) (· == c)
  cases hrest : s.dropWhile (· == c) with
  | nil => exact iff_of_false nofun fun h => h.1 rfl
  | cons y r =>
    rw [← hfront, hrest, List.getLast?_append, List.getLast?_cons, Option.some_or]
    exact (and_iff_right (List.cons_ne_nil y r)).symm

/-- A text is its leading characters and what stands behind them. -/
theorem exists_append_dropWhile (c : Char) (s : Text) :
    ∃ t, s = t ++ s.dropWhile (· == c) ∧ ∀ x ∈ t, x = c := by
  refine ⟨s.takeWhile (· == c), List.takeWhile_append_dropWhile.symm, fun x hx => ?_⟩
  have hleading := List.mem_takeWhile_imp hx
  exact beq_iff_eq.mp hleading

/-- A text is what stands before its trailing characters, and these. -/
theorem exists_dropTrailing_append (c : Char) (s : Text) :
    ∃ t, s = dropTrailing (· == c) s ++ t ∧ ∀ x ∈ t, x = c := by
  refine ⟨(s.reverse.takeWhile (· == c)).reverse, ?_, fun x hx => ?_⟩
  · rw [dropTrailing, ← List.reverse_append, List.takeWhile_append_dropWhile, List.reverse_reverse]
  · have htrailing := List.mem_takeWhile_imp (List.mem_reverse.mp hx)
    exact beq_iff_eq.mp htrailing

theorem dropTrailing_append {p : Char → Bool} {s t : Text} (hs : ∀ c ∈ s, p c = false)
    (ht : ∀ c ∈ t, p c) : dropTrailing p (s ++ t) = s := by
  rw [dropTrailing, List.reverse_append, List.dropWhile_append_of_pos (by simpa using ht)]
  cases hrev : s.reverse with
  | nil => rw [List.dropWhile_nil, ← hrev, List.reverse_reverse]
  | cons c r =>
    have hc : c ∈ s := List.mem_reverse.mp (hrev ▸ List.mem_cons_self)
    rw [List.dropWhile_cons_of_neg (by simp [hs c hc]), ← hrev, List.reverse_reverse]

/-- Where there is nothing to strip, nothing is. -/
theorem strip_eq_self {p : Char → Bool} {s : Text} (hs : ∀ c ∈ s, p c = false) :
    strip p s = s := by
  have hleading : dropLeading p s = s := by
    cases s with
    | nil => rfl
    | cons c r => exact List.dropWhile_cons_of_neg (by simp [hs c List.mem_cons_self])
  rw [strip, hleading]
  simpa using dropTrailing_append hs (t := []) (by simp)

end EntryRef.Text
