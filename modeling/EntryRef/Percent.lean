import EntryRef.Text.Utf8

/-!
# Percent-encoding

`Percent.encode` writes a text in UTF-8, and `Percent.encodeBytes` replaces each byte that is not
safe by a percent sign and two upper-case hexadecimal digits. `Percent.decode` undoes this: a
percent sign with two hexadecimal digits of either case is the byte that they name, any other
character is its own UTF-8 form, and what is not UTF-8 in the end becomes U+FFFD.
-/

namespace EntryRef.Percent

open Text

/-- Is `b` a letter, a digit or one of the four marks that are never encoded? -/
def isUnreserved (b : UInt8) : Bool :=
  let c := Char.ofNat b.toNat
  b < 0x80 && (c.isAlphanum || c == '_' || c == '.' || c == '-' || c == '~')

/-- The upper-case hexadecimal digit for a number below 16. -/
def upperDigit (n : Nat) : Char := (n % 16).digitChar.toUpper

/-- The encoded form of a byte. -/
def encodeByte (safe : Text) (b : UInt8) : Text :=
  if isUnreserved b ∨ (b < 0x80 ∧ Char.ofNat b.toNat ∈ safe) then [Char.ofNat b.toNat]
  else ['%', upperDigit (b.toNat / 16), upperDigit b.toNat]

/-- Encodes a byte string; the characters in `safe`, which are ASCII, stay as they are, besides
those that are never encoded. -/
def encodeBytes (safe : Text) (bs : Bytes) : Text := bs.flatMap (encodeByte safe)

/-- Encodes a text. -/
def encode (safe : Text) (s : Text) : Text := encodeBytes safe (Utf8.encode s)

private theorem mem_encodeByte {safe : Text} {b : UInt8} {c : Char} (h : c ∈ encodeByte safe b) :
    c.isAlphanum ∨ c ∈ ['_', '.', '-', '~', '%'] ∨ c ∈ safe := by
  have digit : ∀ n : Fin 16, (upperDigit n).isAlphanum := by decide
  unfold encodeByte at h
  split at h
  · next hb =>
    rw [List.mem_singleton] at h
    subst h
    rcases hb with hb | hb
    · simp only [isUnreserved, Bool.and_eq_true, Bool.or_eq_true, beq_iff_eq] at hb
      simp only [List.mem_cons, List.not_mem_nil, or_false]
      rcases hb.2 with (((h | h) | h) | h) | h <;> simp [h]
    · exact .inr (.inr hb.2)
  · have ofDigit (n : Nat) : (upperDigit n).isAlphanum := by
      have := digit ⟨n % 16, Nat.mod_lt _ (by decide)⟩
      simpa [upperDigit] using this
    simp only [List.mem_cons, List.not_mem_nil, or_false] at h
    rcases h with rfl | rfl | rfl
    · exact .inr (.inl (by decide))
    · exact .inl (ofDigit _)
    · exact .inl (ofDigit _)

/-- What is encoded has only letters, digits, the four marks, percent signs and safe characters. -/
theorem mem_encodeBytes {safe : Text} {bs : Bytes} {c : Char} (h : c ∈ encodeBytes safe bs) :
    c.isAlphanum ∨ c ∈ ['_', '.', '-', '~', '%'] ∨ c ∈ safe := by
  obtain ⟨b, -, hb⟩ := List.mem_flatMap.1 h
  exact mem_encodeByte hb

theorem mem_encode {safe s : Text} {c : Char} (h : c ∈ encode safe s) :
    c.isAlphanum ∨ c ∈ ['_', '.', '-', '~', '%'] ∨ c ∈ safe := mem_encodeBytes h

/-- One step of decoding: the bytes that the front of a text stands for, and what follows. -/
def decodeStep (c : Char) (r : Text) : Bytes × Text :=
  match c, r with
  | '%', a :: b :: rest =>
    match hexValue? a, hexValue? b with
    | some high, some low => ([UInt8.ofNat (16 * high + low)], rest)
    | _, _ => (String.utf8EncodeChar '%', r)
  | c, r => (String.utf8EncodeChar c, r)

/-- The bytes that a text stands for. -/
def toBytes (s : Text) : Bytes := (chop decodeStep s).flatten

/-- Decodes a text. -/
def decode (s : Text) : Text := Utf8.decodeLossy (toBytes s)

end EntryRef.Percent
