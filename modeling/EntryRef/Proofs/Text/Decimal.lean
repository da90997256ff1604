import EntryRef.Proofs.Text.Cutting
import EntryRef.Text.Decimal
import Mathlib.Algebra.Group.Nat.Defs

/-!
# Reading back decimal numbers

`readInt` reads what `ofInt` writes, provided that the number is `Readable`: it has no more than
`maxDigits` digits. Every number that is read from any text is readable (`readable_of_readInt`),
since leading zeros and underscores only make the written form longer. So a number that was read
once can be written and read again.
-/

namespace EntryRef.Text

/-- The number can be written with `maxDigits` digits. -/
def Readable (n : Int) : Prop := n.natAbs < 10 ^ maxDigits

/-! ### Digits -/

private theorem digitValue?_of_isDigit {c : Char} (h : c.isDigit) :
    digitValue? c = some (c.toNat - '0'.toNat) := by
  rw [digitValue?, if_pos h]

/-- A digit of any script has a value below ten. -/
theorem lt_of_digitValue? {c : Char} {d : Nat} (h : digitValue? c = some d) : d < 10 := by
  unfold digitValue? at h
  split at h
  · next hc =>
    have hle : c.toNat ≤ 57 := (Char.isDigit_iff_toNat.mp hc).2
    rw [← Option.some.inj h]
    change c.toNat - 48 < 10
    omega
  · obtain ⟨z, hz, rfl⟩ := Option.map_eq_some_iff.mp h
    have hrange := List.find?_some hz
    simp only [Bool.and_eq_true, decide_eq_true_eq] at hrange
    omega

/-- Digits are read, one number for each. -/
private theorem digitsOf?_of_isDigit {s : Text} (hs : ∀ c ∈ s, c.isDigit) (gap : Bool)
    (h : s ≠ [] ∨ gap) : digitsOf? gap s = some (s.map fun c => c.toNat - '0'.toNat) := by
  induction s generalizing gap with
  | nil =>
    rw [digitsOf?, if_pos (h.resolve_left fun hne => hne rfl)]
    rfl
  | cons c s ih =>
    have hc : c.isDigit := hs c List.mem_cons_self
    have hne : c ≠ '_' := by
      rintro rfl
      exact absurd hc (by decide)
    rw [digitsOf?, if_neg hne, digitValue?_of_isDigit hc,
      ih (fun x hx => hs x (List.mem_cons_of_mem c hx)) true (.inr rfl)]
    rfl

private theorem digitsOf?_lt {gap : Bool} {s : Text} {ds : List Nat}
    (h : digitsOf? gap s = some ds) :
    ∀ d ∈ ds, d < 10 := by
  induction s generalizing gap ds with
  | nil =>
    rw [digitsOf?] at h
    split at h
    · rw [← Option.some.inj h]
      simp
    · cases h
  | cons c s ih =>
    rw [digitsOf?] at h
    split at h
    · split at h
      · exact ih h
      · cases h
    · obtain ⟨d, hd, h⟩ := Option.bind_eq_some_iff.mp h
      obtain ⟨es, hes, h⟩ := Option.bind_eq_some_iff.mp h
      rw [← Option.some.inj h]
      intro e he
      rcases List.mem_cons.mp he with rfl | he
      · exact lt_of_digitValue? hd
      · exact ih hes e he

/-- So many digits write a number below that power of ten. -/
private theorem foldl_lt_pow {ds : List Nat} (h : ∀ d ∈ ds, d < 10) (n : Nat) :
    ds.foldl (fun n d => 10 * n + d) n < 10 ^ ds.length * (n + 1) := by
  induction ds generalizing n with
  | nil => simp
  | cons d ds ih =>
    have hd : d < 10 := h d List.mem_cons_self
    have hstep : 10 * n + d + 1 ≤ 10 * (n + 1) := by omega
    calc ds.foldl (fun n d => 10 * n + d) (10 * n + d)
        < 10 ^ ds.length * (10 * n + d + 1) := ih (fun e he => h e (List.mem_cons_of_mem d he)) _
      _ ≤ 10 ^ ds.length * (10 * (n + 1)) := Nat.mul_le_mul_left _ hstep
      _ = 10 ^ (d :: ds).length * (n + 1) := by rw [List.length_cons, Nat.pow_succ, Nat.mul_assoc]

/-! ### Numbers -/

/-- A number that was read has no more digits than may be read. -/
theorem readable_of_readInt {s : Text} {n : Int} (h : readInt s = .ok n) : Readable n := by
  unfold readInt at h
  simp only at h
  split at h
  · cases h
  · next ds hds =>
    split at h
    · cases h
    · next hlen =>
      split at h
      · cases h
      · -- the sign does not matter for the number of digits
        have hlt := foldl_lt_pow (digitsOf?_lt hds) 0
        have hpow : 10 ^ ds.length ≤ 10 ^ maxDigits :=
          Nat.pow_le_pow_right (by decide) (Nat.not_lt.mp hlen)
        rw [Readable, ← Except.ok.inj h]
        split <;> omega

private theorem isNumberSpace_of_isDigit {c : Char} (h : c.isDigit) : isNumberSpace c = false := by
  have hc : 48 ≤ c.toNat ∧ c.toNat ≤ 57 := Char.isDigit_iff_toNat.mp h
  simp only [isNumberSpace, isBlank, Bool.and_eq_false_iff, Bool.or_eq_false_iff,
    decide_eq_false_iff_not, beq_eq_false_iff_ne]
  omega

private theorem signed_of_isDigit {c : Char} (h : c.isDigit) (r : Text) :
    signed (c :: r) = (false, c :: r) := by
  unfold signed
  split
  · next heq => cases heq; exact absurd h (by decide)
  · next heq => cases heq; exact absurd h (by decide)
  · rfl

/-- A number is written with digits alone. -/
private theorem isDigit_of_mem_ofNat {n : Nat} {c : Char} (h : c ∈ ofNat n) : c.isDigit :=
  Nat.isDigit_of_mem_toDigits (by decide) (by decide) h

/-- The digits of a readable number are read behind either sign. -/
private theorem readInt_of_signed {n : Nat} (h : n < 10 ^ maxDigits) {s : Text} {negative : Bool}
    (hs : signed (strip isNumberSpace s) = (negative, ofNat n)) :
    readInt s = .ok (if negative then -n else n) := by
  have hrun : (ofNat n).takeWhile (fun c => c == '_' || (digitValue? c).isSome) = ofNat n := by
    rw [List.takeWhile_eq_self_iff]
    intro c hc
    rw [digitValue?_of_isDigit (isDigit_of_mem_ofNat hc), Option.isSome_some, Bool.or_true]
  have hlen : (ofNat n).length ≤ maxDigits :=
    (Nat.length_toDigits_le_iff (by decide) (by decide)).mpr h
  have hvalue : (ofNat n).foldl (fun n c => 10 * n + (c.toNat - '0'.toNat)) 0 = n :=
    Nat.ofDigitChars_toDigits (by decide) (by decide)
  unfold readInt
  simp only [hs, hrun,
    digitsOf?_of_isDigit (fun c => isDigit_of_mem_ofNat) false (.inl Nat.toDigits_ne_nil)]
  rw [if_neg (by rw [List.length_map]; omega), if_neg (Nat.lt_irrefl _), List.foldl_map, hvalue]

/-- **Round trip.** A readable number is read from the text that it is written as. -/
theorem readInt_ofInt {n : Int} (h : Readable n) : readInt (ofInt n) = .ok n := by
  cases n with
  | ofNat m =>
    have hs : signed (strip isNumberSpace (ofInt (.ofNat m))) = (false, ofNat m) := by
      obtain ⟨c, r, hcons⟩ : ∃ c r, ofNat m = c :: r :=
        List.exists_cons_of_ne_nil Nat.toDigits_ne_nil
      have hc : c.isDigit := isDigit_of_mem_ofNat (hcons ▸ List.mem_cons_self)
      rw [ofInt, strip_eq_self fun c hc => isNumberSpace_of_isDigit (isDigit_of_mem_ofNat hc),
        hcons, signed_of_isDigit hc]
    exact readInt_of_signed h hs
  | negSucc m =>
    have hs : signed (strip isNumberSpace (ofInt (.negSucc m))) = (true, ofNat (m + 1)) := by
      rw [ofInt, strip_eq_self]
      · rfl
      · intro c hc
        rcases List.mem_cons.mp hc with rfl | hc
        · decide
        · exact isNumberSpace_of_isDigit (isDigit_of_mem_ofNat hc)
    exact readInt_of_signed h hs

/-! ### Numbers of any length -/

private theorem ofNat_injective : Function.Injective ofNat := by
  have hvalue : ∀ n, Nat.ofDigitChars 10 (ofNat n) 0 = n :=
    fun n => Nat.ofDigitChars_toDigits (by decide) (by decide)
  intro m n h
  rw [← hvalue m, ← hvalue n, h]

/-- Different numbers are written differently, also those that are too long to be read. -/
theorem ofInt_injective : Function.Injective ofInt := by
  have hsign : ∀ m n : Nat, ofNat m ≠ '-' :: ofNat n := by
    intro m n h
    have hdigit : '-'.isDigit := isDigit_of_mem_ofNat (h ▸ List.mem_cons_self)
    exact absurd hdigit (by decide)
  intro a b h
  match a, b, h with
  | .ofNat m, .ofNat n, h => rw [ofNat_injective h]
  | .ofNat m, .negSucc n, h => exact absurd h (hsign m (n + 1))
  | .negSucc m, .ofNat n, h => exact absurd h.symm (hsign n (m + 1))
  | .negSucc m, .negSucc n, h =>
    have htail : ofNat (m + 1) = ofNat (n + 1) := (List.cons.inj h).2
    rw [Nat.succ_injective (ofNat_injective htail)]

end EntryRef.Text
