import EntryRef.Identifier
import EntryRef.Proofs.Percent
import EntryRef.Proofs.Text.Cutting
import Mathlib.Data.List.TakeWhile

/-!
# Identifiers without faults

`Clean` gathers the two rules for the characters of an identifier: none is illegal, and every
percent sign starts an escape. `fault?_eq_none_iff` says that the search for a fault decides these
rules, together with those for the scheme.

Clean texts are closed under joining, under cutting behind any place, and under cutting in front of
a character that is not a hexadecimal digit, so that an escape is never torn apart. Percent-encoded
texts are clean.
-/

namespace EntryRef.Identifier

open Text

variable {c : Char} {s t : Text}

/-! ### Schemes -/

/-- Either a scheme is found in front of a colon, or all of the text is left. -/
theorem splitScheme_cases (s : Text) :
    (∃ scheme rest, splitScheme s = (some scheme, rest) ∧ isScheme scheme ∧
      scheme ++ ':' :: rest = s) ∨ splitScheme s = (none, s) := by
  unfold splitScheme
  split
  · next rest hafter =>
    split
    · next hscheme => exact .inl ⟨_, rest, rfl, hscheme, before_append_after hafter⟩
    · exact .inr rfl
  · exact .inr rfl

/-- A scheme that is found stands in front of a colon. -/
theorem append_of_splitScheme {scheme rest : Text} (h : splitScheme s = (some scheme, rest)) :
    scheme ++ ':' :: rest = s := by
  rcases splitScheme_cases s with ⟨found, tail, hsplit, -, hs⟩ | hnone
  · rw [hsplit, Prod.mk.injEq, Option.some.injEq] at h
    rw [← h.1, ← h.2, hs]
  · cases hnone.symm.trans h

/-- A scheme is found in front of whatever follows its colon. -/
theorem splitScheme_append_cons {scheme : Text} (h : isScheme scheme ∧ ':' ∉ scheme)
    (rest : Text) : splitScheme (scheme ++ ':' :: rest) = (some scheme, rest) := by
  rw [splitScheme, after?_append_cons h.2, before_append_cons h.2]
  exact if_pos h.1

/-! ### The rules for characters -/

/-- Every percent sign starts an escape. -/
def Escaped : Text → Prop
  | [] => True
  | c :: r => (c = '%' → startsWithEscape r) ∧ Escaped r

/-- No character has to be escaped, and every percent sign starts an escape. -/
structure Clean (s : Text) : Prop where
  legal : ∀ c ∈ s, isIllegal c = false
  escaped : Escaped s

/-- Letters, digits and minus signs stand for themselves in every part of an identifier. -/
def Plain (s : Text) : Prop := ∀ c ∈ s, c.isAlphanum ∨ c = '-'

private theorem illegal?_eq_none_iff : illegal? s = none ↔ ∀ c ∈ s, isIllegal c = false := by
  have hdrop : illegal? s = none ↔ (s.dropWhile fun c => !isIllegal c) = [] := by
    unfold illegal?
    split
    · next h => exact iff_of_true rfl h
    · next h => exact iff_of_false (by simp) (by simp [h])
  rw [hdrop, List.dropWhile_eq_nil_iff]
  simp

/-- No escape is found wrong where each percent sign has two hexadecimal digits behind it. -/
theorem badEscape?_eq_none_iff {i : Nat} : badEscape? s i = none ↔ Escaped s := by
  induction s generalizing i with
  | nil => exact iff_of_true rfl trivial
  | cons c r ih =>
    rw [badEscape?, Escaped, ← ih (i := i + 1)]
    split
    · next h =>
      simp only [Bool.and_eq_true, beq_iff_eq, Bool.not_eq_true'] at h
      refine iff_of_false (by simp) fun hesc => ?_
      rw [hesc.1 h.1] at h
      exact absurd h.2 (by decide)
    · next h =>
      simp only [Bool.and_eq_true, beq_iff_eq, Bool.not_eq_true', not_and,
        Bool.not_eq_false] at h
      exact (and_iff_right h).symm

/-- A scheme is at fault if it is empty, or if it is a name and nothing but a fragment follows it.
What is no name of a scheme is let pass. -/
private theorem schemeFault?_eq_none_iff {scheme rest : Text} : schemeFault? scheme rest = none ↔
    scheme ≠ [] ∧ (isScheme scheme → before '#' rest ≠ []) := by
  unfold schemeFault?
  split
  · next h => exact iff_of_false (by simp) fun hne => hne.1 (List.isEmpty_iff.mp h)
  · next h =>
    rw [List.isEmpty_iff] at h
    split
    · next hs =>
      rw [Bool.and_eq_true, List.isEmpty_iff] at hs
      exact iff_of_false (by simp) fun hne => hne.2 hs.1 hs.2
    · next hs =>
      rw [Bool.and_eq_true, List.isEmpty_iff, not_and] at hs
      exact iff_of_true rfl ⟨h, hs⟩

/-- What it takes for an identifier to be without faults. -/
theorem fault?_eq_none_iff : fault? s = none ↔
    s ≠ [] ∧ Clean s ∧ ∀ rest, after? ':' s = some rest →
      before ':' s ≠ [] ∧ (isScheme (before ':' s) → before '#' rest ≠ []) := by
  have hclean : Clean s ↔ illegal? s = none ∧ badEscape? s 0 = none := by
    rw [illegal?_eq_none_iff, badEscape?_eq_none_iff]
    exact ⟨fun h => ⟨h.legal, h.escaped⟩, fun h => ⟨h.1, h.2⟩⟩
  rw [hclean]
  -- the checks come in the order in which faults are told
  unfold fault?
  split
  · next h => exact iff_of_false (by simp) fun hne => hne.1 (List.isEmpty_iff.mp h)
  · next h =>
    rw [List.isEmpty_iff] at h
    split
    · next hi => exact iff_of_false (by simp) fun hne => by simp [hne.2.1.1] at hi
    · next hi =>
      split
      · next hb => exact iff_of_false (by simp) fun hne => by simp [hne.2.1.2] at hb
      · next hb =>
        rw [Option.bind_eq_none_iff]
        simp only [schemeFault?_eq_none_iff]
        exact ⟨fun hs => ⟨h, ⟨hi, hb⟩, hs⟩, fun hs => hs.2.2⟩

/-- Legality of a given text, in a form that is computed over its characters. -/
theorem legal_of_all (h : s.all fun c => !isIllegal c) : ∀ c ∈ s, isIllegal c = false := by
  intro c hc
  have hlegal : (!isIllegal c) = true := List.all_eq_true.mp h c hc
  exact Bool.not_eq_true' _ ▸ hlegal

/-! ### Escapes are not torn apart -/

private theorem startsWithEscape_append (h : startsWithEscape s) (t : Text) :
    startsWithEscape (s ++ t) := by
  match s with
  | [] | [_] => simp [startsWithEscape] at h
  | _ :: _ :: _ => exact h

/-- Escapes stay whole when texts are joined. -/
theorem Escaped.append (hs : Escaped s) (ht : Escaped t) : Escaped (s ++ t) := by
  induction s with
  | nil => exact ht
  | cons c r ih => exact ⟨fun hc => startsWithEscape_append (hs.1 hc) t, ih hs.2⟩

theorem Escaped.of_append_right (h : Escaped (s ++ t)) : Escaped t := by
  induction s with
  | nil => exact h
  | cons c r ih => exact ih h.2

private theorem startsWithEscape_before (hc : isHex c = false) (h : startsWithEscape s) :
    startsWithEscape (before c s) := by
  match s with
  | [] | [_] => simp [startsWithEscape] at h
  | a :: b :: r =>
    rw [startsWithEscape, Bool.and_eq_true] at h
    -- both digits differ from the character, so that neither is cut off
    have hne : ∀ x, isHex x = true → x ≠ c := fun x hx hxc => by simp [← hxc, hx] at hc
    rw [before_cons_of_ne (hne a h.1), before_cons_of_ne (hne b h.2), startsWithEscape, h.1, h.2]
    rfl

/-- A cut at a character that is no hexadecimal digit leaves escapes whole. -/
theorem Escaped.before (hc : isHex c = false) (h : Escaped s) : Escaped (before c s) := by
  induction s with
  | nil => exact h
  | cons x r ih =>
    by_cases hx : x = c
    · rw [hx, before_cons_self]
      trivial
    · rw [before_cons_of_ne hx]
      exact ⟨fun hp => startsWithEscape_before hc (h.1 hp), ih h.2⟩

private theorem startsWithEscape_of_append_cons (hc : isHex c = false)
    (h : startsWithEscape (s ++ c :: t)) : startsWithEscape s := by
  match s with
  | [] =>
    cases t with
    | nil => simp [startsWithEscape] at h
    | cons b t => simp [startsWithEscape, hc] at h
  | [a] => simp [startsWithEscape, hc] at h
  | _ :: _ :: _ => exact h

/-- No escape reaches over a character that is not a hexadecimal digit. -/
theorem Escaped.of_append_cons (hc : isHex c = false) (h : Escaped (s ++ c :: t)) : Escaped s := by
  induction s with
  | nil => trivial
  | cons x r ih => exact ⟨fun hx => startsWithEscape_of_append_cons hc (h.1 hx), ih h.2⟩

/-- Each percent sign, wherever it stands, has two hexadecimal digits behind it. -/
theorem escaped_iff : Escaped s ↔ ∀ p r, s = p ++ '%' :: r → startsWithEscape r := by
  constructor
  · rintro h p r rfl
    exact h.of_append_right.1 rfl
  · intro h
    induction s with
    | nil => trivial
    | cons c r ih =>
      refine ⟨fun hc => h [] r (by rw [hc, List.nil_append]), ih fun p t hp => ?_⟩
      exact h (c :: p) t (by rw [hp, List.cons_append])

theorem escaped_of_not_mem (h : '%' ∉ s) : Escaped s := by
  induction s with
  | nil => trivial
  | cons c r ih =>
    rw [List.mem_cons, not_or] at h
    exact ⟨fun hc => absurd hc.symm h.1, ih h.2⟩

/-! ### Clean texts -/

namespace Clean

theorem append (hs : Clean s) (ht : Clean t) : Clean (s ++ t) where
  legal c hc := (List.mem_append.mp hc).elim (hs.legal c) (ht.legal c)
  escaped := hs.escaped.append ht.escaped

theorem of_append_right (h : Clean (s ++ t)) : Clean t where
  legal c hc := h.legal c (List.mem_append_right s hc)
  escaped := h.escaped.of_append_right

protected theorem before (hc : isHex c = false) (h : Clean s) : Clean (before c s) where
  legal x hx := h.legal x (before_subset c s hx)
  escaped := h.escaped.before hc

theorem of_append_cons_right (h : Clean (s ++ c :: t)) : Clean t := by
  rw [List.append_cons] at h
  exact h.of_append_right

/-- What stands before a character that is no hexadecimal digit is clean if the whole is. -/
theorem of_append_cons (hc : isHex c = false) (h : Clean (s ++ c :: t)) : Clean s where
  legal x hx := h.legal x (List.mem_append_left _ hx)
  escaped := h.escaped.of_append_cons hc

theorem of_not_mem (hlegal : ∀ c ∈ s, isIllegal c = false) (h : '%' ∉ s) : Clean s where
  legal := hlegal
  escaped := escaped_of_not_mem h

/-- A given text without percent signs is clean if its characters are found to be legal. -/
theorem of_all (hlegal : s.all fun c => !isIllegal c) (h : '%' ∉ s) : Clean s :=
  of_not_mem (legal_of_all hlegal) h

/-- A legal character that has no part in escapes separates a text in two clean ones. -/
theorem append_cons_iff (hlegal : isIllegal c = false) (hpercent : c ≠ '%')
    (hhex : isHex c = false) : Clean (s ++ c :: t) ↔ Clean s ∧ Clean t := by
  constructor
  · exact fun h => ⟨h.of_append_cons hhex, h.of_append_cons_right⟩
  · rintro ⟨hs, ht⟩
    have hc : Clean [c] := of_not_mem (by simpa using hlegal) (by simpa using hpercent.symm)
    exact hs.append (hc.append ht)

end Clean

/-! ### Plain texts -/

/-- What holds of the letters and digits of ASCII holds of all letters and digits. -/
private theorem forall_alphanum {p : Char → Bool}
    (h : ∀ n : Fin 128, (Char.ofNat n).isAlphanum → p (Char.ofNat n)) (hc : c.isAlphanum) :
    p c := by
  have hletter : c.isUpper = true ∨ c.isLower = true ∨ c.isDigit = true := by
    rcases Bool.or_eq_true_iff.mp hc with hc | hc
    · exact (Bool.or_eq_true_iff.mp hc).imp_right .inl
    · exact .inr (.inr hc)
  have hlt : c.toNat < 128 := by
    rcases hletter with hc | hc | hc
    · have hle : c.val ≤ 'Z'.val := (of_decide_eq_true hc).2
      exact Nat.lt_of_le_of_lt (UInt32.le_iff_toNat_le.mp hle) (by decide)
    · have hle : c.val ≤ 'z'.val := of_decide_eq_true (Bool.and_eq_true_iff.mp hc).2
      exact Nat.lt_of_le_of_lt (UInt32.le_iff_toNat_le.mp hle) (by decide)
    · exact Nat.lt_of_le_of_lt (Char.isDigit_iff_toNat.mp hc).2 (by decide)
  have hp := h ⟨c.toNat, hlt⟩
  rw [Char.ofNat_toNat] at hp
  exact hp hc

/-- Letters and digits are legal. -/
theorem isIllegal_of_isAlphanum (h : c.isAlphanum) : isIllegal c = false := by
  have hlegal : (!isIllegal c) = true := forall_alphanum (p := fun c => !isIllegal c) (by decide) h
  simpa using hlegal

/-- A character that is neither a letter nor a digit nor a minus sign is in no plain text. -/
theorem Plain.not_mem (hs : Plain s) (h : ¬(c.isAlphanum ∨ c = '-')) : c ∉ s :=
  fun hc => h (hs c hc)

theorem Plain.of_all (h : s.all fun c => c.isAlphanum || c == '-') : Plain s := by
  intro c hc
  have hplain : (c.isAlphanum || c == '-') = true := List.all_eq_true.mp h c hc
  rwa [Bool.or_eq_true, beq_iff_eq] at hplain

/-- Plain texts break no rule: they have no percent sign. -/
theorem Plain.clean (hs : Plain s) : Clean s := by
  refine Clean.of_not_mem (fun c hc => ?_) (hs.not_mem (by decide))
  rcases hs c hc with h | rfl
  · exact isIllegal_of_isAlphanum h
  · decide

/-! ### Encoded texts -/

private theorem isHex_upperDigit (n : Nat) : isHex (Percent.upperDigit n) := by
  rw [isHex, Percent.hexValue?_upperDigit]
  rfl

/-- The encoded form of a byte is one escape, or has none. -/
private theorem escaped_encodeByte {safe : Text} (hsafe : '%' ∉ safe) (b : UInt8) :
    Escaped (Percent.encodeByte safe b) := by
  rcases Percent.encodeByte_cases hsafe b with ⟨c, hb, hc, -⟩ | hb
  · rw [hb]
    exact escaped_of_not_mem fun hm => hc (List.mem_singleton.mp hm).symm
  · have hdigits : Escaped [Percent.upperDigit (b.toNat / 16), Percent.upperDigit b.toNat] := by
      refine escaped_of_not_mem fun hm => ?_
      simp only [List.mem_cons, List.not_mem_nil, or_false] at hm
      rcases hm with hm | hm
      · exact absurd (hm ▸ isHex_upperDigit _) (by decide)
      · exact absurd (hm ▸ isHex_upperDigit _) (by decide)
    rw [hb]
    refine ⟨fun _ => ?_, hdigits⟩
    rw [startsWithEscape, isHex_upperDigit, isHex_upperDigit]
    rfl

/-- What is percent-encoded is clean, if the characters that are not encoded are. -/
theorem clean_encodeBytes {safe : Text} (hsafe : '%' ∉ safe)
    (hlegal : ∀ c ∈ safe, isIllegal c = false) (bs : Bytes) :
    Clean (Percent.encodeBytes safe bs) where
  legal c hc := by
    rcases Percent.mem_encodeBytes hc with h | h | h
    · exact isIllegal_of_isAlphanum h
    · exact legal_of_all (s := ['_', '.', '-', '~', '%']) (by decide) c h
    · exact hlegal c h
  escaped := by
    induction bs with
    | nil => trivial
    | cons b bs ih => exact (escaped_encodeByte hsafe b).append ih

/-- Encoded texts break no rule, whatever the text, as long as what is left as it is breaks none. -/
theorem clean_encode {safe : Text} (hsafe : '%' ∉ safe) (hlegal : ∀ c ∈ safe, isIllegal c = false)
    (s : Text) : Clean (Percent.encode safe s) := clean_encodeBytes hsafe hlegal _

end EntryRef.Identifier
