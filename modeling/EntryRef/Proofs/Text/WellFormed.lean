import EntryRef.Proofs.Text.Utf8
import Mathlib.Data.List.Forall2

/-!
# Well-formed UTF-8

`Utf8.characterRows` is the table of the byte sequences that are a character, by the ranges of their
bytes, and `Utf8.WellFormed` are the byte strings that are made of such sequences. These are the
bytes of texts (`wellFormed_iff`), and the decoder reads them and no others, each as the text that
it is written for (`decode_eq_ok_iff`). Of other byte strings it tells the first place where there
is no character (`isFirstIn_of_decode`).

The table is about ranges alone. That the decoder keeps to it goes through `append_of_next`: what
one step reads is what is written for the character, byte by byte.
-/

namespace EntryRef.Text

/-! ### Decoding step by step -/

/-- What has been collected stands in front of what is read. -/
theorem gather_eq_map (decoder : Text) (ss : List Segment) (start : Nat) (rest : Bytes)
    (acc : Array Char) : gather decoder ss start rest acc =
      (gather decoder ss start rest #[]).map (acc.toList ++ ·) := by
  induction ss generalizing start rest acc with
  | nil => simp [gather, Except.map]
  | cons s ss ih =>
    rw [gather, gather]
    cases s.reading with
    | error reason => rfl
    | ok c =>
      simp only
      rw [ih, ih (start + s.width) (rest.drop s.width) (#[].push c)]
      cases gather decoder ss (start + s.width) (rest.drop s.width) #[] <;> simp [Except.map]

/-- A decoder that looks at a byte at least reads a character and then what stands behind it. -/
theorem strict_cons {next : Decoder} (hnext : ∀ b r, 0 < (next b r).width) (decoder : Text)
    (start : Nat) (b : UInt8) (r : Bytes) :
    strict decoder next start (b :: r) = match (next b r).reading with
      | .ok c => (strict decoder next (start + (next b r).width)
          ((b :: r).drop (next b r).width)).map (c :: ·)
      | .error reason => .error ⟨decoder, b, start, (next b r).width, reason⟩ := by
  have hdrop : (b :: r).drop (next b r).width = r.drop ((next b r).width - 1) := by
    obtain ⟨n, hn⟩ := Nat.exists_eq_add_one.mpr (hnext b r)
    rw [hn, List.drop_succ_cons, Nat.add_sub_cancel]
  rw [strict, segments_cons, gather]
  cases (next b r).reading with
  | error reason => rfl
  | ok c =>
    simp only
    rw [gather_eq_map, strict, hdrop]
    rfl

namespace Utf8

variable {a b c d : UInt8} {x : Char} {bs r : Bytes} {t : Text}

/-! ### Characters by the numbers of their bytes -/

private theorem toNat_of_isValidChar {n : Nat} (h : n.isValidChar) : (Char.ofNat n).toNat = n := by
  rw [Char.ofNat, dif_pos h]
  rfl

private theorem ofNat_eq (b : UInt8) {n : Nat} (h : n = b.toNat) : UInt8.ofNat n = b := by
  rw [h, UInt8.ofNat_toNat]

private theorem encodeChar_one (ha : a.toNat < 0x80) :
    String.utf8EncodeChar (Char.ofNat a.toNat) = [a] := by
  have hval : (Char.ofNat a.toNat).val.toNat = a.toNat := toNat_of_isValidChar (.inl (by omega))
  simp only [String.utf8EncodeChar, hval]
  rw [if_pos (by omega), UInt8.ofNat_toNat]

private theorem encodeChar_two (ha : 0xc2 ≤ a.toNat) (ha' : a.toNat < 0xe0) (hb : 0x80 ≤ b.toNat)
    (hb' : b.toNat < 0xc0) :
    String.utf8EncodeChar (Char.ofNat ((a.toNat - 0xc0) * 64 + payload b)) = [a, b] := by
  unfold payload
  have hval : (Char.ofNat ((a.toNat - 0xc0) * 64 + (b.toNat - 0x80))).val.toNat =
      (a.toNat - 0xc0) * 64 + (b.toNat - 0x80) := toNat_of_isValidChar (.inl (by omega))
  simp only [String.utf8EncodeChar, hval]
  rw [if_neg (by omega), if_pos (by omega), ofNat_eq a (by omega), ofNat_eq b (by omega)]

private theorem encodeChar_three (ha : 0xe0 ≤ a.toNat) (ha' : a.toNat < 0xf0)
    (hb : 0x80 ≤ b.toNat) (hb' : b.toNat < 0xc0) (hlow : a.toNat = 0xe0 → 0xa0 ≤ b.toNat)
    (hgap : a.toNat = 0xed → b.toNat < 0xa0) (hc : 0x80 ≤ c.toNat) (hc' : c.toNat < 0xc0) :
    String.utf8EncodeChar (Char.ofNat (((a.toNat - 0xe0) * 64 + payload b) * 64 + payload c)) =
      [a, b, c] := by
  unfold payload
  have hval : (Char.ofNat (((a.toNat - 0xe0) * 64 + (b.toNat - 0x80)) * 64 +
      (c.toNat - 0x80))).val.toNat =
      ((a.toNat - 0xe0) * 64 + (b.toNat - 0x80)) * 64 + (c.toNat - 0x80) :=
    toNat_of_isValidChar (by unfold Nat.isValidChar; omega)
  simp only [String.utf8EncodeChar, hval]
  rw [if_neg (by omega), if_neg (by omega), if_pos (by omega), ofNat_eq a (by omega),
    ofNat_eq b (by omega), ofNat_eq c (by omega)]

private theorem encodeChar_four (ha : 0xf0 ≤ a.toNat) (ha' : a.toNat < 0xf5)
    (hb : 0x80 ≤ b.toNat) (hb' : b.toNat < 0xc0) (hlow : a.toNat = 0xf0 → 0x90 ≤ b.toNat)
    (hhigh : a.toNat = 0xf4 → b.toNat < 0x90) (hc : 0x80 ≤ c.toNat) (hc' : c.toNat < 0xc0)
    (hd : 0x80 ≤ d.toNat) (hd' : d.toNat < 0xc0) :
    String.utf8EncodeChar (Char.ofNat
      ((((a.toNat - 0xf0) * 64 + payload b) * 64 + payload c) * 64 + payload d)) =
      [a, b, c, d] := by
  unfold payload
  have hval : (Char.ofNat ((((a.toNat - 0xf0) * 64 + (b.toNat - 0x80)) * 64 +
      (c.toNat - 0x80)) * 64 + (d.toNat - 0x80))).val.toNat =
      (((a.toNat - 0xf0) * 64 + (b.toNat - 0x80)) * 64 + (c.toNat - 0x80)) * 64 +
        (d.toNat - 0x80) := toNat_of_isValidChar (by unfold Nat.isValidChar; omega)
  simp only [String.utf8EncodeChar, hval]
  rw [if_neg (by omega), if_neg (by omega), if_neg (by omega), ofNat_eq a (by omega),
    ofNat_eq b (by omega), ofNat_eq c (by omega), ofNat_eq d (by omega)]

/-! ### The table of characters -/

/-- The ranges of the bytes that make a character, one row for each kind of first byte. Where the
second byte has a narrower range, the others would write a character in more bytes than it takes, a
half of a pair, or a number above U+10FFFF. -/
def characterRows : List (List (Nat × Nat)) :=
  [[(0x00, 0x7f)],
    [(0xc2, 0xdf), (0x80, 0xbf)],
    [(0xe0, 0xe0), (0xa0, 0xbf), (0x80, 0xbf)],
    [(0xe1, 0xec), (0x80, 0xbf), (0x80, 0xbf)],
    [(0xed, 0xed), (0x80, 0x9f), (0x80, 0xbf)],
    [(0xee, 0xef), (0x80, 0xbf), (0x80, 0xbf)],
    [(0xf0, 0xf0), (0x90, 0xbf), (0x80, 0xbf), (0x80, 0xbf)],
    [(0xf1, 0xf3), (0x80, 0xbf), (0x80, 0xbf), (0x80, 0xbf)],
    [(0xf4, 0xf4), (0x80, 0x8f), (0x80, 0xbf), (0x80, 0xbf)]]

/-- The byte is in a range. -/
def InRange (b : UInt8) (range : Nat × Nat) : Prop := range.1 ≤ b.toNat ∧ b.toNat ≤ range.2

/-- The bytes make one character. -/
def IsCharacter (bs : Bytes) : Prop := ∃ row ∈ characterRows, List.Forall₂ InRange bs row

/-- Every row has the bytes of characters. -/
theorem exists_of_isCharacter (h : IsCharacter bs) : ∃ x, String.utf8EncodeChar x = bs := by
  obtain ⟨row, hrow, hbs⟩ := h
  simp only [characterRows, List.mem_cons, List.not_mem_nil, or_false] at hrow
  rcases hrow with rfl | rfl | rfl | rfl | rfl | rfl | rfl | rfl | rfl
  all_goals
    simp only [List.forall₂_cons_right_iff, List.forall₂_nil_right_iff, InRange] at hbs
  · obtain ⟨a, _, ⟨-, ha⟩, rfl, rfl⟩ := hbs
    exact ⟨_, encodeChar_one (by omega)⟩
  · obtain ⟨a, _, ha, ⟨b, _, hb, rfl, rfl⟩, rfl⟩ := hbs
    exact ⟨_, encodeChar_two (by omega) (by omega) (by omega) (by omega)⟩
  -- four rows of three bytes and three rows of four
  iterate 4
    obtain ⟨a, _, ha, ⟨b, _, hb, ⟨c, _, hc, rfl, rfl⟩, rfl⟩, rfl⟩ := hbs
    exact ⟨_, encodeChar_three (by omega) (by omega) (by omega) (by omega) (by omega) (by omega)
      (by omega) (by omega)⟩
  iterate 3
    obtain ⟨a, _, ha, ⟨b, _, hb, ⟨c, _, hc, ⟨d, _, hd, rfl, rfl⟩, rfl⟩, rfl⟩, rfl⟩ := hbs
    exact ⟨_, encodeChar_four (by omega) (by omega) (by omega) (by omega) (by omega) (by omega)
      (by omega) (by omega) (by omega) (by omega)⟩

private theorem inRange_ofNat {n low high : Nat} (hlow : low ≤ n) (hhigh : n ≤ high)
    (hbyte : high < 256) : InRange (UInt8.ofNat n) (low, high) := by
  have hn : (UInt8.ofNat n).toNat = n := UInt8.toNat_ofNat_of_lt' (Nat.lt_of_le_of_lt hhigh hbyte)
  exact ⟨hn.symm ▸ hlow, hn.symm ▸ hhigh⟩

/-- A byte with six bits of a number continues a character. -/
private theorem inRange_six_bits (n : Nat) : InRange (UInt8.ofNat (n % 64 + 128)) (0x80, 0xbf) :=
  inRange_ofNat (by omega) (by omega) (by decide)

/-- The highest four bits tell the row. -/
private theorem isCharacter_three {n : Nat} (hlow : 0x800 ≤ n) (hhigh : n < 0x10000)
    (hpair : n < 0xd800 ∨ 0xdfff < n) : IsCharacter [UInt8.ofNat (n / 4096 % 16 + 224),
      UInt8.ofNat (n / 64 % 64 + 128), UInt8.ofNat (n % 64 + 128)] := by
  obtain h | h | h | h : n / 4096 = 0 ∨ (1 ≤ n / 4096 ∧ n / 4096 ≤ 12) ∨ n / 4096 = 13 ∨
      14 ≤ n / 4096 := by omega
  · exact ⟨[(0xe0, 0xe0), (0xa0, 0xbf), (0x80, 0xbf)], by decide,
      .cons (inRange_ofNat (by omega) (by omega) (by decide))
        (.cons (inRange_ofNat (by omega) (by omega) (by decide))
          (.cons (inRange_six_bits _) .nil))⟩
  · exact ⟨[(0xe1, 0xec), (0x80, 0xbf), (0x80, 0xbf)], by decide,
      .cons (inRange_ofNat (by omega) (by omega) (by decide))
        (.cons (inRange_six_bits _) (.cons (inRange_six_bits _) .nil))⟩
  · exact ⟨[(0xed, 0xed), (0x80, 0x9f), (0x80, 0xbf)], by decide,
      .cons (inRange_ofNat (by omega) (by omega) (by decide))
        (.cons (inRange_ofNat (by omega) (by omega) (by decide))
          (.cons (inRange_six_bits _) .nil))⟩
  · exact ⟨[(0xee, 0xef), (0x80, 0xbf), (0x80, 0xbf)], by decide,
      .cons (inRange_ofNat (by omega) (by omega) (by decide))
        (.cons (inRange_six_bits _) (.cons (inRange_six_bits _) .nil))⟩

/-- The highest three bits tell the row. -/
private theorem isCharacter_four {n : Nat} (hlow : 0x10000 ≤ n) (hhigh : n < 0x110000) :
    IsCharacter [UInt8.ofNat (n / 262144 % 8 + 240), UInt8.ofNat (n / 4096 % 64 + 128),
      UInt8.ofNat (n / 64 % 64 + 128), UInt8.ofNat (n % 64 + 128)] := by
  obtain h | h | h : n / 262144 = 0 ∨ (1 ≤ n / 262144 ∧ n / 262144 ≤ 3) ∨ n / 262144 = 4 := by
    omega
  · exact ⟨[(0xf0, 0xf0), (0x90, 0xbf), (0x80, 0xbf), (0x80, 0xbf)], by decide,
      .cons (inRange_ofNat (by omega) (by omega) (by decide))
        (.cons (inRange_ofNat (by omega) (by omega) (by decide))
          (.cons (inRange_six_bits _) (.cons (inRange_six_bits _) .nil)))⟩
  · exact ⟨[(0xf1, 0xf3), (0x80, 0xbf), (0x80, 0xbf), (0x80, 0xbf)], by decide,
      .cons (inRange_ofNat (by omega) (by omega) (by decide))
        (.cons (inRange_six_bits _) (.cons (inRange_six_bits _)
          (.cons (inRange_six_bits _) .nil)))⟩
  · exact ⟨[(0xf4, 0xf4), (0x80, 0x8f), (0x80, 0xbf), (0x80, 0xbf)], by decide,
      .cons (inRange_ofNat (by omega) (by omega) (by decide))
        (.cons (inRange_ofNat (by omega) (by omega) (by decide))
          (.cons (inRange_six_bits _) (.cons (inRange_six_bits _) .nil)))⟩

/-- Every character is in a row. -/
theorem isCharacter_encodeChar (x : Char) : IsCharacter (String.utf8EncodeChar x) := by
  have hvalid : x.toNat < 0xd800 ∨ 0xdfff < x.toNat ∧ x.toNat < 0x110000 := x.valid
  have hval : x.val.toNat = x.toNat := rfl
  simp only [String.utf8EncodeChar, hval]
  split
  · exact ⟨[(0x00, 0x7f)], by decide,
      .cons (inRange_ofNat (by omega) (by omega) (by decide)) .nil⟩
  split
  · exact ⟨[(0xc2, 0xdf), (0x80, 0xbf)], by decide,
      .cons (inRange_ofNat (by omega) (by omega) (by decide)) (.cons (inRange_six_bits _) .nil)⟩
  split
  · exact isCharacter_three (by omega) (by omega) (by omega)
  · exact isCharacter_four (by omega) (by omega)

/-- The byte string is made of characters. -/
inductive WellFormed : Bytes → Prop
  | nil : WellFormed []
  | append {bs rest : Bytes} (hbs : IsCharacter bs) (hrest : WellFormed rest) :
    WellFormed (bs ++ rest)

/-- The well-formed byte strings are the bytes of texts. -/
theorem wellFormed_iff : WellFormed bs ↔ ∃ t, bs = encode t := by
  constructor
  · intro h
    induction h with
    | nil => exact ⟨[], rfl⟩
    | append hbs hrest ih =>
      obtain ⟨x, rfl⟩ := exists_of_isCharacter hbs
      obtain ⟨t, rfl⟩ := ih
      exact ⟨x :: t, rfl⟩
  · rintro ⟨t, rfl⟩
    induction t with
    | nil => exact .nil
    | cons x t ih => exact .append (isCharacter_encodeChar x) ih

/-! ### What the decoder reads -/

private theorem next_width (b : UInt8) (r : Bytes) : 0 < (next b r).width := by
  unfold next
  repeat' split
  all_goals exact Nat.zero_lt_succ _

theorem toNat_continues (h : continues c) : 0x80 ≤ c.toNat ∧ c.toNat < 0xc0 := by
  simpa [continues, UInt8.le_iff_toNat_le, UInt8.lt_iff_toNat_lt] using h

private theorem toNat_of_seconds (h : seconds a b) : (0x80 ≤ b.toNat ∧ b.toNat < 0xc0) ∧
    (a.toNat = 0xe0 → 0xa0 ≤ b.toNat) ∧ (a.toNat = 0xed → b.toNat < 0xa0) ∧
    (a.toNat = 0xf0 → 0x90 ≤ b.toNat) ∧ (a.toNat = 0xf4 → b.toNat < 0x90) := by
  rw [seconds, Bool.and_eq_true] at h
  obtain ⟨hcontinues, hrange⟩ := h
  refine ⟨toNat_continues hcontinues, ?_⟩
  simp only [← UInt8.toNat_inj, UInt8.reduceToNat] at hrange
  split at hrange
  · simp only [decide_eq_true_eq, UInt8.le_iff_toNat_le, UInt8.reduceToNat] at hrange
    omega
  split at hrange
  · simp only [decide_eq_true_eq, UInt8.lt_iff_toNat_lt, UInt8.reduceToNat] at hrange
    omega
  split at hrange
  · simp only [decide_eq_true_eq, UInt8.le_iff_toNat_le, UInt8.reduceToNat] at hrange
    omega
  split at hrange
  · simp only [decide_eq_true_eq, UInt8.lt_iff_toNat_lt, UInt8.reduceToNat] at hrange
    omega
  · omega

/-- What one step reads is what is written for the character. -/
theorem append_of_next {w : Nat} (h : next a r = ⟨w, .ok x⟩) :
    a :: r = String.utf8EncodeChar x ++ (a :: r).drop w := by
  simp only [next, UInt8.lt_iff_toNat_lt, UInt8.reduceToNat] at h
  -- one byte
  split at h
  · next ha =>
    rw [Segment.mk.injEq, Except.ok.injEq] at h
    obtain ⟨rfl, rfl⟩ := h
    rw [encodeChar_one ha]
    rfl
  split at h
  · cases h
  -- two bytes
  split at h
  · split at h
    · cases h
    split at h
    · next hb =>
      rw [Segment.mk.injEq, Except.ok.injEq] at h
      obtain ⟨rfl, rfl⟩ := h
      obtain ⟨hb, hb'⟩ := toNat_continues hb
      rw [encodeChar_two (by omega) (by omega) hb hb']
      rfl
    · cases h
  -- three bytes
  split at h
  · split at h
    · cases h
    split at h
    · cases h
    next hb =>
    split at h
    · cases h
    split at h
    · next hc =>
      rw [Segment.mk.injEq, Except.ok.injEq] at h
      obtain ⟨rfl, rfl⟩ := h
      obtain ⟨⟨hb, hb'⟩, hlow, hgap, -⟩ := toNat_of_seconds (by simpa using hb)
      obtain ⟨hc, hc'⟩ := toNat_continues hc
      rw [encodeChar_three (by omega) (by omega) hb hb' hlow hgap hc hc']
      rfl
    · cases h
  -- four bytes
  split at h
  · split at h
    · cases h
    split at h
    · cases h
    next hb =>
    split at h
    · cases h
    split at h
    · cases h
    next hc =>
    split at h
    · cases h
    split at h
    · next hd =>
      rw [Segment.mk.injEq, Except.ok.injEq] at h
      obtain ⟨rfl, rfl⟩ := h
      obtain ⟨⟨hb, hb'⟩, -, -, hlow, hhigh⟩ := toNat_of_seconds (by simpa using hb)
      obtain ⟨hc, hc'⟩ := toNat_continues (by simpa using hc)
      obtain ⟨hd, hd'⟩ := toNat_continues hd
      rw [encodeChar_four (by omega) (by omega) hb hb' hlow hhigh hc hc' hd hd']
      rfl
    · cases h
  · cases h

/-- Written text is read, and then what stands behind it. -/
theorem strict_encode_append (decoder : Text) (start : Nat) (t : Text) (bs : Bytes) :
    strict decoder next start (encode t ++ bs) =
      (strict decoder next (start + (encode t).length) bs).map (t ++ ·) := by
  induction t generalizing start with
  | nil =>
    change strict decoder next start bs = (strict decoder next start bs).map fun s => s
    cases strict decoder next start bs <;> rfl
  | cons x t ih =>
    obtain ⟨b, r, hx, hnext⟩ := next_encodeChar x (encode t ++ bs)
    have hdrop : (b :: (r ++ (encode t ++ bs))).drop (r.length + 1) = encode t ++ bs := by
      rw [List.drop_succ_cons, List.drop_left]
    have hlength : start + (r.length + 1) + (encode t).length =
        start + (b :: (r ++ encode t)).length := by
      rw [List.length_cons, List.length_append]
      omega
    rw [encode_cons, hx, List.append_assoc, List.cons_append, strict_cons next_width, hnext]
    simp only [hdrop, ih, hlength]
    rw [List.cons_append]
    cases strict decoder next (start + (b :: (r ++ encode t)).length) bs <;> rfl

/-- A segment has its first byte at least. -/
theorem drop_width_cons (b : UInt8) (r : Bytes) :
    (b :: r).drop (next b r).width = r.drop ((next b r).width - 1) := by
  obtain ⟨w, hw⟩ := Nat.exists_eq_add_one.mpr (next_width b r)
  rw [hw, List.drop_succ_cons, Nat.add_sub_cancel]

/-- Every byte string is the bytes of a text, and something behind them that does not start with a
character. -/
theorem exists_encode_append (bs : Bytes) : ∃ t rest, bs = encode t ++ rest ∧
    ∀ b r, rest = b :: r → ∃ reason, (next b r).reading = .error reason := by
  induction bs using segments_induction next with
  | nil => exact ⟨[], [], rfl, fun b r h => nomatch h⟩
  | cons b r ih =>
    cases hreading : (next b r).reading with
    | error reason =>
      refine ⟨[], b :: r, rfl, ?_⟩
      rintro _ _ ⟨⟩
      exact ⟨reason, hreading⟩
    | ok x =>
      have hcut : b :: r = String.utf8EncodeChar x ++ (b :: r).drop (next b r).width :=
        append_of_next (by rw [← hreading])
      obtain ⟨t, rest, ht, hrest⟩ := ih
      refine ⟨x :: t, rest, ?_, hrest⟩
      rw [encode_cons, List.append_assoc, ← ht, ← drop_width_cons]
      exact hcut

/-- **Reading is exact.** The decoder reads the bytes of a text as this text, and nothing else. -/
theorem decode_eq_ok_iff : decode bs = .ok t ↔ bs = encode t := by
  constructor
  · intro h
    obtain ⟨s, rest, rfl, hrest⟩ := exists_encode_append bs
    rw [decode, strict_encode_append] at h
    cases rest with
    | nil =>
      obtain rfl : s = t := by
        have hs : s ++ [] = t := Except.ok.inj h
        rwa [List.append_nil] at hs
      rw [List.append_nil]
    | cons b r =>
      obtain ⟨reason, hreading⟩ := hrest b r rfl
      rw [strict_cons next_width, hreading] at h
      cases h
  · rintro rfl
    have h := strict_encode_append "utf-8" 0 t []
    rw [List.append_nil] at h
    rw [decode, h]
    exact congrArg Except.ok (List.append_nil t)

/-- What is well formed is what can be read. -/
theorem wellFormed_iff_exists_decode : WellFormed bs ↔ ∃ t, decode bs = .ok t := by
  rw [wellFormed_iff]
  exact exists_congr fun t => decode_eq_ok_iff.symm

instance : DecidablePred WellFormed := fun bs =>
  match h : decode bs with
  | .ok t => isTrue (wellFormed_iff_exists_decode.mpr ⟨t, h⟩)
  | .error f => isFalse fun hbs => by
    obtain ⟨t, ht⟩ := wellFormed_iff_exists_decode.mp hbs
    rw [h] at ht
    cases ht

/-- Too many bytes for a character, a half of a pair, a number that is too large, a byte that
continues nothing, and a character without its last byte. -/
example : ∀ bs ∈ [[0xc0, 0x80], [0xed, 0xa0, 0x80], [0xf4, 0x90, 0x80, 0x80], [0x80], [0xe2, 0x82]],
    ¬WellFormed bs := by
  decide

/-- The fault is at the first place where no character stands: behind the bytes of a text. -/
def IsFirstIn (f : DecodeFault) (bs : Bytes) : Prop :=
  ∃ t r, bs = encode t ++ f.byte :: r ∧ f.start = (encode t).length ∧
    ∀ s, IsCharacter s → ¬s <+: f.byte :: r

/-- What is not read has a first place where no character stands, and this is what is told. -/
theorem isFirstIn_of_decode {f : DecodeFault} (h : decode bs = .error f) : IsFirstIn f bs := by
  obtain ⟨t, rest, rfl, hrest⟩ := exists_encode_append bs
  rw [decode, strict_encode_append, Nat.zero_add] at h
  cases rest with
  | nil => cases h
  | cons b r =>
    obtain ⟨reason, hreading⟩ := hrest b r rfl
    rw [strict_cons next_width, hreading] at h
    obtain rfl := Except.error.inj h
    refine ⟨t, r, rfl, rfl, ?_⟩
    rintro s hs ⟨more, hmore⟩
    -- a character at this place would be read
    obtain ⟨x, rfl⟩ := exists_of_isCharacter hs
    obtain ⟨b', r', hx, hnext⟩ := next_encodeChar x more
    rw [hx, List.cons_append] at hmore
    obtain ⟨rfl, rfl⟩ := List.cons.inj hmore
    rw [hnext] at hreading
    cases hreading

end Utf8

end EntryRef.Text
