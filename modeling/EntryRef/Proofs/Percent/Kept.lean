import EntryRef.Proofs.Percent.Ending

/-!
# Characters that stay where they are

Escapes consist of percent signs and hexadecimal digits. Any other character of a text is in its
place when the text is decoded: what stands before it and what stands behind it are decoded on their
own (`Percent.decode_append_cons`). This holds of texts with broken escapes too, and of texts whose
bytes are not well formed in front of the character, since the first byte of a character never
continues another one (`Text.Utf8.decodeLossy_append`).
-/

namespace EntryRef

/-! ### UTF-8 -/

namespace Text.Utf8

variable {a : UInt8}

/-- The first byte of a character does not continue one. -/
theorem continues_of_encodeChar {c : Char} {r : Bytes} (h : String.utf8EncodeChar c = a :: r) :
    continues a = false := by
  obtain ⟨b, s, hc, hnext⟩ := next_encodeChar c []
  obtain ⟨rfl, -⟩ := List.cons.inj (h.symm.trans hc)
  by_contra hcontinues
  have hrange := toNat_continues (Bool.not_eq_false _ ▸ hcontinues)
  -- the decoder would refuse it
  have hrefused : next a (s ++ []) = ⟨1, .error .startByte⟩ := by
    unfold next
    rw [if_neg (by simp [UInt8.lt_iff_toNat_lt]; omega),
      if_pos (by simp [UInt8.lt_iff_toNat_lt]; omega)]
  have hreading := congrArg (fun segment => segment.reading) (hnext.symm.trans hrefused)
  cases hreading

private theorem width_next_le (b : UInt8) (r : Bytes) : (next b r).width ≤ r.length + 1 := by
  unfold next
  repeat' split
  all_goals
    simp only [List.length_nil, List.length_cons]
    omega

/-- A byte that does not continue a character ends a segment just as the end of the data does. -/
theorem next_append (ha : continues a = false) (b : UInt8) (r s : Bytes) :
    (next b (r ++ a :: s)).width = (next b r).width ∧
      (next b (r ++ a :: s)).reading.toOption = (next b r).reading.toOption := by
  have hseconds : seconds b a = false := by rw [seconds, ha, Bool.false_and]
  -- no segment is longer than four bytes
  rcases r with _ | ⟨x, _ | ⟨y, _ | ⟨z, r⟩⟩⟩
  · simp only [next, List.nil_append, ha, hseconds, Bool.not_false, Bool.false_eq_true, if_true,
      if_false]
    repeat' split
    all_goals exact ⟨rfl, rfl⟩
  · simp only [next, List.cons_append, List.nil_append, ha, Bool.not_false, Bool.false_eq_true,
      if_true, if_false]
    repeat' split
    all_goals exact ⟨rfl, rfl⟩
  · simp only [next, List.cons_append, List.nil_append, ha, Bool.false_eq_true, if_false]
    repeat' split
    all_goals exact ⟨rfl, rfl⟩
  · exact ⟨rfl, rfl⟩

/-- Data are decoded on their own from a byte on that does not continue a character. -/
theorem decodeLossy_append (ha : continues a = false) (bs s : Bytes) :
    decodeLossy (bs ++ a :: s) = decodeLossy bs ++ decodeLossy (a :: s) := by
  induction bs using segments_induction next with
  | nil => rfl
  | cons b r ih =>
    obtain ⟨hwidth, hreading⟩ := next_append ha b r s
    have hle : (next b r).width - 1 ≤ r.length := Nat.sub_le_of_le_add (width_next_le b r)
    rw [List.cons_append, decodeLossy_cons_eq, decodeLossy_cons_eq b r, hwidth, hreading,
      List.drop_append_of_le_length hle, ih, List.cons_append]

private theorem decodeLossy_append_encodeChar (bs : Bytes) (c : Char) (s : Bytes) :
    decodeLossy (bs ++ (String.utf8EncodeChar c ++ s)) =
      decodeLossy bs ++ c :: decodeLossy s := by
  obtain ⟨b, r, hc, -⟩ := next_encodeChar c []
  have hfirst : decodeLossy (encode [c] ++ s) = [c] ++ decodeLossy s :=
    decodeLossy_encode_append [c] s
  rw [encode_cons, encode, List.flatMap_nil, List.append_nil, hc, List.cons_append] at hfirst
  rw [hc, List.cons_append, decodeLossy_append (continues_of_encodeChar hc), hfirst,
    List.singleton_append]

end Text.Utf8

/-! ### Escapes -/

namespace Percent

open Text

variable {c : Char}

/-- An escape does not reach over a character that has no part in escapes. -/
theorem decodeStep_append_cons (hhex : isHex c = false) (x : Char) (r s : Text) :
    decodeStep x (r ++ c :: s) = ((decodeStep x r).1, (decodeStep x r).2 ++ c :: s) := by
  have hnone : hexValue? c = none := by rwa [isHex, Option.isSome_eq_false_iff,
    Option.isNone_iff_eq_none] at hhex
  by_cases hx : x = '%'
  · subst hx
    rcases r with _ | ⟨y, _ | ⟨z, r⟩⟩
    · cases s with
      | nil => rfl
      | cons y s => simp only [decodeStep, List.nil_append, hnone]
    · simp only [decodeStep, List.cons_append, List.nil_append, hnone]
      cases hexValue? y <;> rfl
    · simp only [decodeStep, List.cons_append]
      cases hexValue? y <;> cases hexValue? z <;> rfl
  · have hother : ∀ t, decodeStep x t = (String.utf8EncodeChar x, t) := by
      intro t
      unfold decodeStep
      split
      · exact absurd rfl hx
      · rfl
    rw [hother, hother]

private theorem toBytes_append_cons (hpercent : c ≠ '%') (hhex : isHex c = false) (s r : Text) :
    toBytes (s ++ c :: r) = toBytes s ++ (String.utf8EncodeChar c ++ toBytes r) := by
  induction s using chop_induction decodeStep length_decodeStep_le with
  | nil => rw [List.nil_append, toBytes_cons_of_ne hpercent, toBytes_nil, List.nil_append]
  | cons x s ih =>
    rw [List.cons_append, toBytes_cons, toBytes_cons x s, decodeStep_append_cons hhex, ih,
      List.append_assoc]

/-- **Characters that stay.** A character that has no part in escapes stands in the decoded text
between what the text in front of it and the text behind it are decoded to. -/
theorem decode_append_cons (hpercent : c ≠ '%') (hhex : isHex c = false) (s r : Text) :
    decode (s ++ c :: r) = decode s ++ c :: decode r := by
  rw [decode, toBytes_append_cons hpercent hhex, Utf8.decodeLossy_append_encodeChar]
  rfl

end Percent

end EntryRef
