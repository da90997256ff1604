import EntryRef.Text.Utf8
import Mathlib.Data.List.Flatten

/-!
# Reading back UTF-8

`Utf8.next` reads back the bytes that `Utf8.encode` writes for a character, whatever bytes follow
(`next_encodeChar`). Hence a written text in front of other bytes comes back whole, and what follows
is read on its own (`decodeLossy_encode_append`).

The decoder compares bytes with constants; the proofs look at the numbers of the bytes instead,
which `omega` can do.
-/

namespace EntryRef.Text

/-! ### Steps of a decoder -/

section Steps

variable (next : Decoder)

private theorem length_step_le (b : UInt8) (r : Bytes) :
    (r.drop ((next b r).width - 1)).length ≤ r.length :=
  (List.drop_sublist _ r).length_le

/-- The first character takes its bytes, and the others are those of what is left. -/
theorem segments_cons (b : UInt8) (r : Bytes) :
    segments next (b :: r) = next b r :: segments next (r.drop ((next b r).width - 1)) :=
  chop_cons (length_step_le next) b r

/-- Induction along the segments of a byte string. -/
theorem segments_induction {motive : Bytes → Prop} (nil : motive [])
    (cons : ∀ b r, motive (r.drop ((next b r).width - 1)) → motive (b :: r)) (bs : Bytes) :
    motive bs :=
  chop_induction (fun b r => (next b r, r.drop ((next b r).width - 1))) (length_step_le next) nil
    cons bs

end Steps

namespace Utf8

/-! ### Bytes as numbers -/

/-- The bound is written as a number, which `omega` needs. -/
private theorem toNat_ofNat {n : Nat} (h : n < 256) : (UInt8.ofNat n).toNat = n :=
  UInt8.toNat_ofNat_of_lt' h

private theorem ofNat_lt_iff {n : Nat} (h : n < 256) (b : UInt8) :
    UInt8.ofNat n < b ↔ n < b.toNat := by
  rw [UInt8.lt_iff_toNat_lt, toNat_ofNat h]

private theorem le_ofNat_iff {n : Nat} (h : n < 256) (b : UInt8) :
    b ≤ UInt8.ofNat n ↔ b.toNat ≤ n := by
  rw [UInt8.le_iff_toNat_le, toNat_ofNat h]

private theorem ofNat_eq_iff {n : Nat} (h : n < 256) (b : UInt8) :
    UInt8.ofNat n = b ↔ n = b.toNat := by
  rw [← UInt8.toNat_inj, toNat_ofNat h]

private theorem continues_ofNat {n : Nat} (h : n < 64) : continues (UInt8.ofNat (n + 0x80)) := by
  simp (disch := omega) only [continues, le_ofNat_iff, ofNat_lt_iff, UInt8.reduceToNat,
    Bool.and_eq_true, decide_eq_true_eq]
  omega

private theorem payload_ofNat {n : Nat} (h : n < 64) : payload (UInt8.ofNat (n + 0x80)) = n := by
  have hn : (UInt8.ofNat (n + 0x80)).toNat = n + 0x80 := toNat_ofNat (by omega)
  unfold payload
  omega

/-! ### One character -/

private theorem next_one {n : Nat} (h : n < 0x80) (rest : Bytes) :
    next (UInt8.ofNat n) rest = ⟨1, .ok (Char.ofNat n)⟩ := by
  unfold next
  simp (disch := omega) only [ofNat_lt_iff, toNat_ofNat, UInt8.reduceToNat]
  rw [if_pos h]

/-- Characters of two bytes: the first number is at least 2, as shorter forms are refused. -/
private theorem next_two {n m : Nat} (hn : 2 ≤ n) (hn' : n < 32) (hm : m < 64) (rest : Bytes) :
    next (UInt8.ofNat (n + 0xc0)) (UInt8.ofNat (m + 0x80) :: rest) =
      ⟨2, .ok (Char.ofNat (n * 64 + m))⟩ := by
  unfold next
  simp (disch := omega) only [ofNat_lt_iff, toNat_ofNat, UInt8.reduceToNat, continues_ofNat,
    payload_ofNat]
  rw [if_neg (by omega), if_neg (by omega), if_pos (by omega), if_pos trivial, Nat.add_sub_cancel]

/-- Characters of three bytes; shorter forms and surrogates are left out by the bounds. -/
private theorem next_three {n m k : Nat} (hn : n < 16) (hm : m < 64) (hk : k < 64)
    (hlow : n = 0 → 32 ≤ m) (hgap : n = 13 → m < 32) (rest : Bytes) :
    next (UInt8.ofNat (n + 0xe0)) (UInt8.ofNat (m + 0x80) :: UInt8.ofNat (k + 0x80) :: rest) =
      ⟨3, .ok (Char.ofNat ((n * 64 + m) * 64 + k))⟩ := by
  have hseconds : seconds (UInt8.ofNat (n + 0xe0)) (UInt8.ofNat (m + 0x80)) := by
    simp (disch := omega) only [seconds, continues_ofNat, ofNat_eq_iff, le_ofNat_iff,
      ofNat_lt_iff, UInt8.reduceToNat, Bool.true_and]
    split
    · exact decide_eq_true (by omega)
    · split
      · exact decide_eq_true (by omega)
      · rw [if_neg (by omega), if_neg (by omega)]
  unfold next
  simp (disch := omega) only [ofNat_lt_iff, toNat_ofNat, UInt8.reduceToNat, continues_ofNat,
    payload_ofNat, hseconds]
  rw [if_neg (by omega), if_neg (by omega), if_neg (by omega), if_pos (by omega),
    if_neg (by decide), if_pos trivial, Nat.add_sub_cancel]

/-- Characters of four bytes; shorter forms and what is beyond the last character are left out by
the bounds. -/
private theorem next_four {n m k l : Nat} (hn : n < 5) (hm : m < 64) (hk : k < 64) (hl : l < 64)
    (hlow : n = 0 → 16 ≤ m) (hhigh : n = 4 → m < 16) (rest : Bytes) :
    next (UInt8.ofNat (n + 0xf0)) (UInt8.ofNat (m + 0x80) :: UInt8.ofNat (k + 0x80) ::
        UInt8.ofNat (l + 0x80) :: rest) =
      ⟨4, .ok (Char.ofNat (((n * 64 + m) * 64 + k) * 64 + l))⟩ := by
  have hseconds : seconds (UInt8.ofNat (n + 0xf0)) (UInt8.ofNat (m + 0x80)) := by
    simp (disch := omega) only [seconds, continues_ofNat, ofNat_eq_iff, le_ofNat_iff,
      ofNat_lt_iff, UInt8.reduceToNat, Bool.true_and]
    rw [if_neg (by omega), if_neg (by omega)]
    split
    · exact decide_eq_true (by omega)
    · split
      · exact decide_eq_true (by omega)
      · rfl
  unfold next
  simp (disch := omega) only [ofNat_lt_iff, toNat_ofNat, UInt8.reduceToNat, continues_ofNat,
    payload_ofNat, hseconds]
  rw [if_neg (by omega), if_neg (by omega), if_neg (by omega), if_neg (by omega),
    if_pos (by omega), if_neg (by decide), if_neg (by decide), if_pos trivial, Nat.add_sub_cancel]

/-- The decoder reads back the bytes of a character, whatever follows them. -/
theorem next_encodeChar (c : Char) (rest : Bytes) :
    ∃ b r, String.utf8EncodeChar c = b :: r ∧ next b (r ++ rest) = ⟨r.length + 1, .ok c⟩ := by
  have hvalid : c.toNat < 0xd800 ∨ 0xdfff < c.toNat ∧ c.toNat < 0x110000 := c.valid
  have back : ∀ n, n = c.toNat → Char.ofNat n = c := fun n hn => by rw [hn, Char.ofNat_toNat]
  have hval : c.val.toNat = c.toNat := rfl
  -- one case for each number of bytes, from one to four
  simp only [String.utf8EncodeChar, hval]
  split
  · refine ⟨_, _, rfl, ?_⟩
    rw [List.nil_append, next_one (by omega), Char.ofNat_toNat]
    rfl
  · split
    · refine ⟨_, _, rfl, ?_⟩
      rw [List.cons_append, List.nil_append, next_two (by omega) (by omega) (by omega),
        back _ (by omega)]
      rfl
    · split
      · refine ⟨_, _, rfl, ?_⟩
        simp only [List.cons_append, List.nil_append]
        rw [next_three (by omega) (by omega) (by omega) (by omega) (by omega), back _ (by omega)]
        rfl
      · refine ⟨_, _, rfl, ?_⟩
        simp only [List.cons_append, List.nil_append]
        rw [next_four (by omega) (by omega) (by omega) (by omega) (by omega) (by omega),
          back _ (by omega)]
        rfl

private theorem not_ofNat_lt {n : Nat} (hn : 0x80 ≤ n) (hn' : n < 256) : ¬UInt8.ofNat n < 0x80 := by
  rw [UInt8.lt_iff_toNat_lt, toNat_ofNat hn']
  exact Nat.not_lt.mpr hn

/-- A byte of ASCII is the only byte of its character. -/
theorem encodeChar_eq_singleton {c : Char} {b : UInt8} (hb : b ∈ String.utf8EncodeChar c)
    (hascii : b < 0x80) : String.utf8EncodeChar c = [b] := by
  have hvalid : c.toNat < 0xd800 ∨ 0xdfff < c.toNat ∧ c.toNat < 0x110000 := c.valid
  have hval : c.val.toNat = c.toNat := rfl
  revert hb
  simp only [String.utf8EncodeChar, hval]
  -- the bytes of longer characters are all beyond ASCII
  split
  · intro hb
    rw [List.mem_singleton.mp hb]
  · split
    · simp only [List.mem_cons, List.not_mem_nil, or_false]
      rintro (rfl | rfl)
      all_goals exact absurd hascii (not_ofNat_lt (by omega) (by omega))
    · split
      · simp only [List.mem_cons, List.not_mem_nil, or_false]
        rintro (rfl | rfl | rfl)
        all_goals exact absurd hascii (not_ofNat_lt (by omega) (by omega))
      · simp only [List.mem_cons, List.not_mem_nil, or_false]
        rintro (rfl | rfl | rfl | rfl)
        all_goals exact absurd hascii (not_ofNat_lt (by omega) (by omega))

/-- A character of one byte is in ASCII. -/
theorem lt_of_encodeChar_eq_singleton {c : Char} {b : UInt8}
    (h : String.utf8EncodeChar c = [b]) : b < 0x80 := by
  revert h
  simp only [String.utf8EncodeChar]
  split
  · next hc =>
    intro h
    rw [← List.singleton_inj.mp h, UInt8.lt_iff_toNat_lt, toNat_ofNat (by omega)]
    exact Nat.lt_succ_of_le hc
  · split
    · simp
    · split <;> simp

/-! ### Texts -/

theorem encode_cons (c : Char) (s : Text) : encode (c :: s) = String.utf8EncodeChar c ++ encode s :=
  rfl

@[simp]
theorem encode_append (s t : Text) : encode (s ++ t) = encode s ++ encode t := List.flatMap_append

/-- Leaving characters out makes no text longer in bytes. -/
theorem length_encode_le {s t : Text} (h : s.Sublist t) :
    (encode s).length ≤ (encode t).length :=
  (h.flatMap String.utf8EncodeChar).length_le

/-- Every character takes a byte at least. -/
theorem length_le_length_encode (s : Text) : s.length ≤ (encode s).length := by
  induction s with
  | nil => exact Nat.le_refl 0
  | cons c s ih =>
    have hc : 0 < (String.utf8EncodeChar c).length := by
      rw [String.length_utf8EncodeChar]
      exact c.utf8Size_pos
    rw [encode_cons, List.length_append, List.length_cons]
    omega

/-- The bytes of a character are one segment. -/
theorem segments_encodeChar (c : Char) (bs : Bytes) :
    ∃ w, segments next (String.utf8EncodeChar c ++ bs) = ⟨w, .ok c⟩ :: segments next bs := by
  obtain ⟨b, r, hc, hnext⟩ := next_encodeChar c bs
  refine ⟨r.length + 1, ?_⟩
  rw [hc, List.cons_append, segments_cons, hnext, Nat.add_sub_cancel, List.drop_left]

/-- Written text comes back, and the bytes behind it are read on their own. -/
theorem decodeLossy_encode_append (s : Text) (bs : Bytes) :
    decodeLossy (encode s ++ bs) = s ++ decodeLossy bs := by
  induction s with
  | nil => rfl
  | cons c s ih =>
    obtain ⟨w, hw⟩ := segments_encodeChar c (encode s ++ bs)
    rw [encode_cons, List.append_assoc, decodeLossy, lossy, hw, List.map_cons, List.cons_append]
    exact congrArg (c :: ·) ih

/-- What is encoded is decoded without loss. -/
theorem decodeLossy_encode (s : Text) : decodeLossy (encode s) = s := by
  have h := decodeLossy_encode_append s []
  rwa [List.append_nil, show decodeLossy [] = [] from rfl, List.append_nil] at h

/-- A text is told by its bytes. -/
theorem encode_injective : Function.Injective encode :=
  Function.LeftInverse.injective decodeLossy_encode

/-- A character of one byte is in every text that has the byte. -/
theorem mem_of_mem_encode {c : Char} {b : UInt8} (hc : String.utf8EncodeChar c = [b]) {s : Text}
    (h : b ∈ encode s) : c ∈ s := by
  obtain ⟨x, hx, hb⟩ := List.mem_flatMap.mp h
  have hone : String.utf8EncodeChar x = [b] :=
    encodeChar_eq_singleton hb (lt_of_encodeChar_eq_singleton hc)
  have hbytes : encode [x] = encode [c] := by
    rw [encode_cons, encode_cons, hone, hc]
  have hxc : [x] = [c] := by
    rw [← decodeLossy_encode [x], hbytes, decodeLossy_encode]
  rwa [← List.singleton_inj.mp hxc]

end Utf8

end EntryRef.Text
