import EntryRef.Proofs.Percent
import EntryRef.Proofs.Text.WellFormed

/-!
# How decoded texts end

A decoded text ends in a slash if and only if the text itself does, or ends in an escaped slash
(`Percent.getLast?_decode_iff`). On the way, a character of one byte is the last one of a text if
its byte is the last one of the data, well formed or not (`Text.Utf8.getLast?_decodeLossy_iff`).
-/

namespace EntryRef

/-! ### UTF-8 -/

namespace Text.Utf8

variable {a : UInt8} {x : Char}

/-- The bytes behind the first one that a step looks at continue a character. -/
theorem all_continues_take_next (b : UInt8) (r : Bytes) :
    (r.take ((next b r).width - 1)).all continues := by
  unfold next
  repeat' split
  all_goals simp_all [seconds]

theorem decodeLossy_cons_eq (b : UInt8) (r : Bytes) : decodeLossy (b :: r) =
    (next b r).reading.toOption.getD '\uFFFD' ::
      decodeLossy (r.drop ((next b r).width - 1)) := by
  rw [decodeLossy, lossy, segments_cons, List.map_cons]
  cases (next b r).reading <;> rfl

private theorem decodeLossy_cons (b : UInt8) (r : Bytes) :
    ∃ y, decodeLossy (b :: r) = y :: decodeLossy (r.drop ((next b r).width - 1)) ∧
      ((next b r).reading = .ok y ∨ y = '\uFFFD') := by
  refine ⟨_, decodeLossy_cons_eq b r, ?_⟩
  cases (next b r).reading with
  | ok y => exact .inl rfl
  | error reason => exact .inr rfl

/-- Data of a single segment are a character of one byte if its byte is the last one of them. -/
theorem decodeLossy_eq_singleton_iff (hx : String.utf8EncodeChar x = [a]) {b : UInt8} {r : Bytes}
    (hrest : r.drop ((next b r).width - 1) = []) :
    decodeLossy (b :: r) = [x] ↔ (b :: r).getLast? = some a := by
  obtain ⟨y, hy, hreading⟩ := decodeLossy_cons b r
  have hdecode : decodeLossy (b :: r) = [y] := by
    rw [hy, hrest]
    rfl
  rw [hdecode, List.singleton_inj]
  constructor
  · rintro rfl
    have hok : (next b r).reading = .ok y := hreading.resolve_right fun h => by
      have hlength : (String.utf8EncodeChar '\uFFFD').length = 3 := by decide
      rw [← h, hx] at hlength
      cases hlength
    have hbytes : b :: r = String.utf8EncodeChar y ++ (b :: r).drop (next b r).width :=
      append_of_next (by rw [← hok])
    rw [hbytes, hx, drop_width_cons, hrest]
    rfl
  · intro hlast
    have hcut : r.take ((next b r).width - 1) = r := by
      have hsplit := List.take_append_drop ((next b r).width - 1) r
      rwa [hrest, List.append_nil] at hsplit
    cases r with
    | nil =>
      obtain rfl : b = a := Option.some_inj.mp hlast
      have hone : decodeLossy (encode [x]) = [x] := decodeLossy_encode [x]
      rw [encode_cons, hx] at hone
      exact List.singleton_inj.mp (hdecode.symm.trans hone)
    | cons c r =>
      -- the last byte would continue a character
      have hall := all_continues_take_next b (c :: r)
      rw [hcut, List.all_eq_true] at hall
      have hcontinues := hall a (List.mem_of_getLast? hlast)
      have hascii := lt_of_encodeChar_eq_singleton hx
      simp only [continues, Bool.and_eq_true, decide_eq_true_eq] at hcontinues
      exact absurd hascii (UInt8.not_lt.mpr hcontinues.1)

/-- A character of one byte is the last one of a text if its byte is the last one of the data. -/
theorem getLast?_decodeLossy_iff (hx : String.utf8EncodeChar x = [a]) (bs : Bytes) :
    (decodeLossy bs).getLast? = some x ↔ bs.getLast? = some a := by
  induction bs using segments_induction next with
  | nil => exact iff_of_false nofun nofun
  | cons b r ih =>
    obtain ⟨y, hy, -⟩ := decodeLossy_cons b r
    cases hrest : r.drop ((next b r).width - 1) with
    | nil =>
      rw [← decodeLossy_eq_singleton_iff hx hrest, hy, hrest]
      exact Option.some_inj.trans List.singleton_inj.symm
    | cons b' r' =>
      -- neither side looks at the first segment
      obtain ⟨y', hy', -⟩ := decodeLossy_cons b' r'
      have hcut : r.take ((next b r).width - 1) ++ b' :: r' = r := by
        rw [← hrest, List.take_append_drop]
      rw [hrest] at ih
      rw [hy, hrest, hy', List.getLast?_cons_cons, ← hy', ih, ← hcut, ← List.cons_append,
        List.getLast?_append_cons]

end Text.Utf8

/-! ### Escapes -/

namespace Percent

open Text

/-- The text ends in a slash or in an escaped one. -/
def EndsInSlash (s : Text) : Prop := ∃ t ∈ [['/'], "%2F".toList, "%2f".toList], t <:+ s

instance : DecidablePred EndsInSlash := fun s => by
  unfold EndsInSlash
  infer_instance

/-- More in front does not matter, unless it makes an escape. -/
theorem endsInSlash_cons {c : Char} {r : Text} (hr : r ≠ [])
    (hescape : c = '%' → ∀ a b, r = [a, b] → ¬(isHex a ∧ isHex b)) :
    EndsInSlash (c :: r) ↔ EndsInSlash r := by
  simp only [EndsInSlash, List.suffix_cons_iff]
  refine ⟨?_, fun ⟨t, ht, hr⟩ => ⟨t, ht, .inr hr⟩⟩
  rintro ⟨t, ht, rfl | h⟩
  · simp only [List.mem_cons, List.not_mem_nil, or_false] at ht
    rcases ht with ht | ht | ht
    · exact absurd (List.cons.inj ht).2 hr
    · obtain ⟨hc, h⟩ := List.cons.inj ht
      exact absurd (by decide) (hescape hc '2' 'F' h)
    · obtain ⟨hc, h⟩ := List.cons.inj ht
      exact absurd (by decide) (hescape hc '2' 'f' h)
  · exact ⟨t, ht, h⟩

/-- The digits of a number below 16. -/
theorem eq_of_hexValue? {c : Char} {n : Nat} (h : hexValue? c = some n) :
    (n < 10 ∧ c = Char.ofNat (48 + n)) ∨
      (10 ≤ n ∧ n < 16 ∧ (c = Char.ofNat (87 + n) ∨ c = Char.ofNat (55 + n))) := by
  have hle : ∀ {x y : Char}, x ≤ y ↔ x.toNat ≤ y.toNat := Iff.rfl
  have hofNat : ∀ {m}, m = c.toNat → c = Char.ofNat m := fun hm => by rw [hm, Char.ofNat_toNat]
  simp only [hexValue?, hle, Char.reduceToNat] at h
  split at h
  · have hn := Option.some_inj.mp h
    exact .inl ⟨by omega, hofNat (by omega)⟩
  split at h
  · have hn := Option.some_inj.mp h
    exact .inr ⟨by omega, by omega, .inl (hofNat (by omega))⟩
  split at h
  · have hn := Option.some_inj.mp h
    exact .inr ⟨by omega, by omega, .inr (hofNat (by omega))⟩
  · cases h

/-- An escape is that of a slash if it names the byte of one. -/
theorem endsInSlash_escape {a b : Char} {high low : Nat} (ha : hexValue? a = some high)
    (hb : hexValue? b = some low) :
    EndsInSlash ['%', a, b] ↔ UInt8.ofNat (16 * high + low) = 0x2f := by
  constructor
  · rintro ⟨t, ht, hsuffix⟩
    simp only [List.mem_cons, List.not_mem_nil, or_false] at ht
    rcases ht with rfl | rfl | rfl
    · -- a slash is no digit
      obtain rfl : '/' = b := by simpa [List.suffix_cons_iff] using hsuffix
      cases hb
    · have hwhole := hsuffix.eq_of_length rfl
      cases hwhole
      cases ha
      cases hb
      rfl
    · have hwhole := hsuffix.eq_of_length rfl
      cases hwhole
      cases ha
      cases hb
      rfl
  · intro h
    have hbyte : (16 * high + low) % 256 = 47 := by simpa using congrArg UInt8.toNat h
    have ha' := eq_of_hexValue? ha
    have hb' := eq_of_hexValue? hb
    obtain rfl : high = 2 := by omega
    obtain rfl : low = 15 := by omega
    obtain rfl : a = '2' := by simpa using ha'
    obtain rfl | rfl : b = 'f' ∨ b = 'F' := by simpa using hb'
    · decide
    · decide

/-- A text starts with an escape, or with a character that stands for its own bytes. -/
theorem decodeStep_cases (c : Char) (r : Text) :
    (∃ a b rest high low, c = '%' ∧ r = a :: b :: rest ∧ hexValue? a = some high ∧
        hexValue? b = some low) ∨
      (c = '%' → ∀ a b, r = [a, b] → ¬(isHex a ∧ isHex b)) ∧
        decodeStep c r = (String.utf8EncodeChar c, r) := by
  unfold decodeStep
  split
  · next a b rest =>
    cases ha : hexValue? a with
    | none => exact .inr ⟨by rintro - _ _ ⟨⟩; simp [isHex, ha], rfl⟩
    | some high =>
      cases hb : hexValue? b with
      | none => exact .inr ⟨by rintro - _ _ ⟨⟩; simp [isHex, hb], rfl⟩
      | some low => exact .inl ⟨a, b, rest, high, low, rfl, rfl, ha, hb⟩
  · next hne => exact .inr ⟨fun hc a b hr => absurd hr (hne a b [] hc), rfl⟩

private theorem toBytes_ne_nil (c : Char) (r : Text) : toBytes (c :: r) ≠ [] := by
  obtain ⟨a, b, rest, high, low, rfl, rfl, ha, hb⟩ | ⟨-, hstep⟩ := decodeStep_cases c r
  · rw [toBytes_escape ha hb]
    exact List.cons_ne_nil _ _
  · obtain ⟨b, bs, hc, -⟩ := Utf8.next_encodeChar c []
    rw [toBytes_cons, hstep, hc]
    exact List.cons_ne_nil _ _

/-- The last byte is that of a slash if the text ends in one. -/
theorem getLast?_toBytes_iff (s : Text) : (toBytes s).getLast? = some 0x2f ↔ EndsInSlash s := by
  induction s using chop_induction decodeStep length_decodeStep_le with
  | nil => exact iff_of_false (by simp) (by decide)
  | cons c r ih =>
    obtain ⟨a, b, rest, high, low, rfl, rfl, ha, hb⟩ | ⟨hescape, hstep⟩ := decodeStep_cases c r
    · rw [decodeStep_escape ha hb] at ih
      rw [toBytes_escape ha hb]
      cases rest with
      | nil =>
        rw [endsInSlash_escape ha hb, toBytes_nil, List.getLast?_singleton, Option.some_inj]
      | cons d rest =>
        obtain ⟨x, xs, hx⟩ := List.exists_cons_of_ne_nil (toBytes_ne_nil d rest)
        have hdigit : ∀ {c n}, hexValue? c = some n → c ≠ '%' := by
          rintro _ n h rfl
          cases h
        rw [hx, List.getLast?_cons_cons, ← hx, ih,
          endsInSlash_cons (List.cons_ne_nil _ _) (by simp),
          endsInSlash_cons (List.cons_ne_nil _ _) fun h => absurd h (hdigit ha),
          endsInSlash_cons (List.cons_ne_nil _ _) fun h => absurd h (hdigit hb)]
    · rw [hstep] at ih
      rw [toBytes_cons, hstep]
      cases r with
      | nil =>
        have hslash : String.utf8EncodeChar '/' = [0x2f] := by decide
        rw [toBytes_nil, List.append_nil]
        constructor
        · intro h
          have hmem : '/' ∈ [c] :=
            Utf8.mem_of_mem_encode hslash (List.mem_append_left _ (List.mem_of_getLast? h))
          obtain rfl := List.mem_singleton.mp hmem
          decide
        · intro h
          obtain rfl : '/' = c := by simpa [EndsInSlash, List.suffix_cons_iff] using h
          rw [hslash]
          rfl
      | cons d r =>
        obtain ⟨x, xs, hx⟩ := List.exists_cons_of_ne_nil (toBytes_ne_nil d r)
        rw [endsInSlash_cons (List.cons_ne_nil _ _) hescape, ← ih, hx, List.getLast?_append,
          List.getLast?_cons, Option.some_or]

/-- **Slashes at the end.** What is decoded ends in a slash where one is written, or escaped. -/
theorem getLast?_decode_iff (s : Text) : (decode s).getLast? = some '/' ↔ EndsInSlash s := by
  have hslash : String.utf8EncodeChar '/' = [0x2f] := by decide
  rw [decode, Utf8.getLast?_decodeLossy_iff hslash, getLast?_toBytes_iff]

end Percent

end EntryRef
