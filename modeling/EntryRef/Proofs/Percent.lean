import EntryRef.Percent
import EntryRef.Proofs.Text.Cutting
import EntryRef.Proofs.Text.Utf8

/-!
# Percent-encoding is undone by decoding

Encoding leaves no percent sign but those of its own escapes, as long as the percent sign is not
among the safe characters. `toBytes` therefore reads an encoded byte string back byte by byte
(`toBytes_encodeBytes_append`), and `decode` gives the text that the bytes stand for, behind any
front that has no percent sign (`decode_append_encodeBytes`). A text comes back as it is
(`decode_append_encode`), since its bytes are UTF-8 and nothing is replaced by U+FFFD on the way
back. Any two byte strings are told apart by their encoded forms (`encodeBytes_injective`), whether
or not they are UTF-8.

An encoded text is cut where the text itself is, at separators that stay as they are
(`Separator.before_encode`, `Separator.afterLast_encode`).
-/

namespace EntryRef.Percent

open Text

variable {safe : Text}

/-- Characters that are not safe do not occur in what is encoded. -/
theorem not_mem_encodeBytes {bs : Bytes} {c : Char}
    (h : ¬(c.isAlphanum ∨ c ∈ ['_', '.', '-', '~', '%'] ∨ c ∈ safe)) : c ∉ encodeBytes safe bs :=
  fun hc => h (mem_encodeBytes hc)

theorem not_mem_encode {s : Text} {c : Char}
    (h : ¬(c.isAlphanum ∨ c ∈ ['_', '.', '-', '~', '%'] ∨ c ∈ safe)) : c ∉ encode safe s :=
  not_mem_encodeBytes h

/-! ### Steps of decoding -/

theorem length_decodeStep_le (c : Char) (r : Text) :
    (decodeStep c r).2.length ≤ r.length := by
  unfold decodeStep
  split
  · split <;> simp only [List.length_cons]
    · omega
    · exact Nat.le_refl _
  · exact Nat.le_refl _

@[simp]
theorem toBytes_nil : toBytes [] = [] := by
  rw [toBytes, chop_nil, List.flatten_nil]

theorem toBytes_cons (c : Char) (r : Text) :
    toBytes (c :: r) = (decodeStep c r).1 ++ toBytes (decodeStep c r).2 := by
  rw [toBytes, chop_cons length_decodeStep_le, List.flatten_cons, toBytes]

/-- A character other than a percent sign stands for its own bytes. -/
theorem toBytes_cons_of_ne {c : Char} (h : c ≠ '%') (r : Text) :
    toBytes (c :: r) = String.utf8EncodeChar c ++ toBytes r := by
  have hstep : decodeStep c r = (String.utf8EncodeChar c, r) := by
    unfold decodeStep
    split
    · exact absurd rfl h
    · rfl
  rw [toBytes_cons, hstep]

/-- A percent sign with two hexadecimal digits is read at once. -/
theorem decodeStep_escape {a b : Char} {high low : Nat} (ha : hexValue? a = some high)
    (hb : hexValue? b = some low) (r : Text) :
    decodeStep '%' (a :: b :: r) = ([UInt8.ofNat (16 * high + low)], r) := by
  rw [decodeStep, ha, hb]

theorem toBytes_escape {a b : Char} {high low : Nat} (ha : hexValue? a = some high)
    (hb : hexValue? b = some low) (r : Text) :
    toBytes ('%' :: a :: b :: r) = UInt8.ofNat (16 * high + low) :: toBytes r := by
  rw [toBytes_cons, decodeStep_escape ha hb, List.singleton_append]

/-- A front without percent signs stands for its own bytes. -/
theorem toBytes_append {p : Text} (h : '%' ∉ p) (r : Text) :
    toBytes (p ++ r) = Utf8.encode p ++ toBytes r := by
  induction p with
  | nil => rfl
  | cons c p ih =>
    rw [List.mem_cons, not_or] at h
    rw [List.cons_append, toBytes_cons_of_ne (Ne.symm h.1), ih h.2, Utf8.encode_cons,
      List.append_assoc]

/-! ### Encoded bytes -/

/-- The digits that are written are read back. -/
theorem hexValue?_upperDigit (n : Nat) : hexValue? (upperDigit n) = some (n % 16) := by
  have digit : ∀ k : Fin 16, hexValue? (upperDigit k) = some k.val := by decide
  have h := digit ⟨n % 16, Nat.mod_lt _ (by decide)⟩
  rwa [upperDigit, Nat.mod_mod] at h

/-- An ASCII character is one byte. -/
private theorem encodeChar_ofByte {b : UInt8} (h : b < 0x80) :
    String.utf8EncodeChar (Char.ofNat b.toNat) = [b] := by
  have ascii : ∀ n : Fin 128, String.utf8EncodeChar (Char.ofNat n) = [UInt8.ofNat n] := by decide
  rw [ascii ⟨b.toNat, UInt8.lt_iff_toNat_lt.mp h⟩, UInt8.ofNat_toNat]

/-- A byte is written as the character that it is, which is no percent sign, or as an escape. -/
theorem encodeByte_cases (hsafe : '%' ∉ safe) (b : UInt8) :
    (∃ c, encodeByte safe b = [c] ∧ c ≠ '%' ∧ String.utf8EncodeChar c = [b]) ∨
      encodeByte safe b = ['%', upperDigit (b.toNat / 16), upperDigit b.toNat] := by
  by_cases h : isUnreserved b ∨ (b < 0x80 ∧ Char.ofNat b.toNat ∈ safe)
  · refine .inl ⟨Char.ofNat b.toNat, by rw [encodeByte, if_pos h], ?_⟩
    rcases h with h | h
    · simp only [isUnreserved, Bool.and_eq_true, decide_eq_true_eq] at h
      -- the percent sign is not among the unreserved characters
      refine ⟨fun hc => ?_, encodeChar_ofByte h.1⟩
      rw [hc] at h
      exact absurd h.2 (by decide)
    · exact ⟨fun hc => hsafe (hc ▸ h.2), encodeChar_ofByte h.1⟩
  · exact .inr (by rw [encodeByte, if_neg h])

/-- A byte is read back from its encoded form, wherever it stands. -/
private theorem toBytes_encodeByte_append (hsafe : '%' ∉ safe) (b : UInt8) (r : Text) :
    toBytes (encodeByte safe b ++ r) = b :: toBytes r := by
  rcases encodeByte_cases hsafe b with ⟨c, hb, hc, hbytes⟩ | hb
  · rw [hb, List.singleton_append, toBytes_cons_of_ne hc, hbytes, List.singleton_append]
  · have hlt : b.toNat < 256 := b.toNat_lt
    have hvalue : 16 * (b.toNat / 16 % 16) + b.toNat % 16 = b.toNat := by omega
    rw [hb]
    change toBytes ('%' :: upperDigit (b.toNat / 16) :: upperDigit b.toNat :: r) = b :: toBytes r
    rw [toBytes_escape (hexValue?_upperDigit _) (hexValue?_upperDigit _), hvalue,
      UInt8.ofNat_toNat]

private theorem encodeBytes_cons (safe : Text) (b : UInt8) (bs : Bytes) :
    encodeBytes safe (b :: bs) = encodeByte safe b ++ encodeBytes safe bs := List.flatMap_cons

theorem encodeBytes_append (safe : Text) (bs cs : Bytes) :
    encodeBytes safe (bs ++ cs) = encodeBytes safe bs ++ encodeBytes safe cs := List.flatMap_append

/-- An encoded byte string stands for itself. -/
theorem toBytes_encodeBytes_append (hsafe : '%' ∉ safe) (bs : Bytes) (r : Text) :
    toBytes (encodeBytes safe bs ++ r) = bs ++ toBytes r := by
  induction bs with
  | nil => rfl
  | cons b bs ih =>
    rw [encodeBytes_cons, List.append_assoc, toBytes_encodeByte_append hsafe, ih, List.cons_append]

/-- All bytes are read back. -/
private theorem toBytes_encodeBytes (hsafe : '%' ∉ safe) (bs : Bytes) :
    toBytes (encodeBytes safe bs) = bs := by
  have h := toBytes_encodeBytes_append hsafe bs []
  rwa [List.append_nil, toBytes_nil, List.append_nil] at h

/-- Byte strings are told apart by their encoded forms. -/
theorem encodeBytes_injective (hsafe : '%' ∉ safe) : Function.Injective (encodeBytes safe) :=
  Function.LeftInverse.injective (toBytes_encodeBytes hsafe)

/-- Decoding gives the text that the encoded bytes stand for, and leaves a front without percent
signs as it is. -/
theorem decode_append_encodeBytes (hsafe : '%' ∉ safe) {p : Text} (hp : '%' ∉ p) (bs : Bytes) :
    decode (p ++ encodeBytes safe bs) = p ++ Utf8.decodeLossy bs := by
  rw [decode, toBytes_append hp, toBytes_encodeBytes hsafe, Utf8.decodeLossy_encode_append]

/-- **Round trip.** Decoding undoes encoding, and leaves a front without percent signs as it is. -/
theorem decode_append_encode (hsafe : '%' ∉ safe) {p : Text} (hp : '%' ∉ p) (s : Text) :
    decode (p ++ encode safe s) = p ++ s := by
  rw [encode, decode_append_encodeBytes hsafe hp, Utf8.decodeLossy_encode]

theorem decode_encode (hsafe : '%' ∉ safe) (s : Text) : decode (encode safe s) = s :=
  decode_append_encode hsafe (p := []) List.not_mem_nil s

/-- Texts are told by their encoded form. -/
theorem encode_injective (hsafe : '%' ∉ safe) : Function.Injective (encode safe) :=
  Function.LeftInverse.injective (decode_encode hsafe)

/-! ### Encoded parts -/

/-- The characters that have no part in escapes are those of the text. -/
theorem mem_of_mem_encode (hsafe : '%' ∉ safe) {c : Char} (hpercent : c ≠ '%')
    (hhex : isHex c = false) {s : Text} (h : c ∈ encode safe s) : c ∈ s := by
  obtain ⟨b, hb, hc⟩ := List.mem_flatMap.mp h
  have hdigit : ∀ n, c ≠ upperDigit n := by
    rintro n rfl
    rw [isHex, hexValue?_upperDigit] at hhex
    cases hhex
  rcases encodeByte_cases hsafe b with ⟨x, hx, -, hbytes⟩ | hx
  · rw [hx, List.mem_singleton] at hc
    subst hc
    exact Utf8.mem_of_mem_encode hbytes hb
  · rw [hx] at hc
    simp only [List.mem_cons, List.not_mem_nil, or_false] at hc
    rcases hc with hc | hc | hc
    · exact absurd hc hpercent
    · exact absurd hc (hdigit _)
    · exact absurd hc (hdigit _)

theorem encode_append (safe s t : Text) :
    encode safe (s ++ t) = encode safe s ++ encode safe t := by
  rw [encode, Utf8.encode_append, encodeBytes_append]
  rfl

/-- A slash that is safe stays where it is. -/
theorem encode_slash_cons (s : Text) : encode ['/'] ('/' :: s) = '/' :: encode ['/'] s := by
  have hslash : encode ['/'] ['/'] = ['/'] := by decide
  have hsplit : encode ['/'] (['/'] ++ s) = encode ['/'] ['/'] ++ encode ['/'] s :=
    encode_append _ _ _
  rwa [hslash] at hsplit

/-! ### Cutting encoded texts -/

/-- The character stays as it is where texts are encoded, and escapes have none. -/
structure Separator (safe : Text) (c : Char) : Prop where
  kept : encode safe [c] = [c]
  ne_percent : c ≠ '%'
  not_hex : isHex c = false

namespace Separator

variable {c : Char}

private theorem encode_append_cons (h : Separator safe c) (p r : Text) :
    encode safe (p ++ c :: r) = encode safe p ++ c :: encode safe r := by
  rw [← List.singleton_append, encode_append, encode_append, h.kept, List.singleton_append]

/-- A separator occurs in the encoded form of a text just if it does in the text. -/
theorem mem_encode_iff (h : Separator safe c) (hsafe : '%' ∉ safe) {s : Text} :
    c ∈ encode safe s ↔ c ∈ s := by
  refine ⟨mem_of_mem_encode hsafe h.ne_percent h.not_hex, fun hc => ?_⟩
  obtain ⟨p, r, rfl⟩ := List.append_of_mem hc
  rw [h.encode_append_cons]
  exact List.mem_append_right _ List.mem_cons_self

/-- Cutting at the first separator and encoding may change places. -/
theorem before_encode (h : Separator safe c) (hsafe : '%' ∉ safe) (s : Text) :
    before c (encode safe s) = encode safe (before c s) := by
  by_cases hc : c ∈ s
  · obtain ⟨p, r, rfl, hp⟩ := List.eq_append_cons_of_mem hc
    rw [h.encode_append_cons, before_append_cons hp,
      before_append_cons (mt (h.mem_encode_iff hsafe).mp hp)]
  · rw [before_eq_self hc, before_eq_self (mt (h.mem_encode_iff hsafe).mp hc)]

/-- Cutting behind the last separator and encoding may change places. -/
theorem afterLast_encode (h : Separator safe c) (hsafe : '%' ∉ safe) (s : Text) :
    afterLast c (encode safe s) = encode safe (afterLast c s) := by
  by_cases hc : c ∈ s
  · obtain ⟨p, r, rfl, hr⟩ := exists_append_cons_of_mem hc
    rw [h.encode_append_cons, afterLast_append_cons hr,
      afterLast_append_cons (mt (h.mem_encode_iff hsafe).mp hr)]
  · rw [afterLast_eq_self hc, afterLast_eq_self (mt (h.mem_encode_iff hsafe).mp hc)]

end Separator

end EntryRef.Percent
