import EntryRef.Proofs.Text.Utf8
import EntryRef.Text.Glyph
import Mathlib.Data.List.Basic

/-!
# Which lists of glyphs are encoded

Characters can always be encoded, so that a list of glyphs is refused for its surrogates alone
(`Glyph.exists_encode_iff`), and a text is encoded as itself (`Glyph.encode_toGlyphs`). The bytes of
glyphs need not tell them: three surrogates may stand for the bytes of one character. Lists without
surrogates are texts (`Glyph.exists_toGlyphs_eq_iff`), and those are told by their bytes.
-/

namespace EntryRef

open Text

theorem Text.toGlyphs_injective : Function.Injective Text.toGlyphs :=
  List.map_injective_iff.mpr fun _ _ h => Glyph.char.inj h

@[simp]
theorem Text.surrogate_not_mem_toGlyphs (s : Text) (n : Fin 0x800) :
    Glyph.surrogate n ∉ s.toGlyphs := by
  intro h
  obtain ⟨c, -, hc⟩ := List.mem_map.mp h
  cases hc

namespace Glyph

variable {byte? : Fin 0x800 → Option UInt8} {s : List Glyph} {bs : Bytes}

/-- The glyphs without surrogates are the texts. -/
theorem exists_toGlyphs_eq_iff : (∃ t : Text, t.toGlyphs = s) ↔ ∀ n, .surrogate n ∉ s := by
  refine ⟨fun ⟨t, ht⟩ n => ht ▸ t.surrogate_not_mem_toGlyphs n, fun h => ?_⟩
  induction s with
  | nil => exact ⟨[], rfl⟩
  | cons g r ih =>
    cases g with
    | char c =>
      obtain ⟨t, rfl⟩ := ih fun n hn => h n (List.mem_cons_of_mem _ hn)
      exact ⟨c :: t, rfl⟩
    | surrogate n => exact absurd List.mem_cons_self (h n)

private theorem encodeFrom_char_cons (i : Nat) (c : Char) (r : List Glyph) :
    encodeFrom byte? i (.char c :: r) =
      (encodeFrom byte? (i + 1) r).map (String.utf8EncodeChar c ++ ·) := rfl

/-- Texts are encoded as themselves. -/
theorem encodeFrom_toGlyphs (i : Nat) (t : Text) :
    encodeFrom byte? i t.toGlyphs = .ok (Utf8.encode t) := by
  induction t generalizing i with
  | nil => rfl
  | cons c t ih =>
    change encodeFrom byte? i (.char c :: Text.toGlyphs t) = _
    rw [encodeFrom_char_cons, ih, Utf8.encode_cons]
    rfl

theorem encode_toGlyphs (t : Text) : encode byte? t.toGlyphs = .ok (Utf8.encode t) :=
  encodeFrom_toGlyphs 0 t

/-- A result that goes through a function is there if and only if it was there before. -/
theorem exists_map_ok_iff {ε α β : Type} {x : Except ε α} {f : α → β} :
    (∃ b, x.map f = .ok b) ↔ ∃ a, x = .ok a := by
  cases x with
  | error e => exact iff_of_false nofun nofun
  | ok a => exact iff_of_true ⟨_, rfl⟩ ⟨_, rfl⟩

/-- A list is encoded from any index on if and only if each of its surrogates has a byte. -/
theorem exists_encodeFrom_iff (i : Nat) :
    (∃ bs, encodeFrom byte? i s = .ok bs) ↔ ∀ n, .surrogate n ∈ s → (byte? n).isSome := by
  induction s generalizing i with
  | nil => exact iff_of_true ⟨[], rfl⟩ (by simp)
  | cons g r ih =>
    cases g with
    | char c =>
      rw [encodeFrom_char_cons, exists_map_ok_iff, ih]
      simp
    | surrogate n =>
      rw [encodeFrom]
      cases hbyte : byte? n with
      | none => exact iff_of_false nofun fun h => by simpa [hbyte] using h n List.mem_cons_self
      | some b =>
        dsimp only
        rw [exists_map_ok_iff, ih]
        refine ⟨fun h m hm => ?_, fun h m hm => h m (List.mem_cons_of_mem _ hm)⟩
        rcases List.mem_cons.mp hm with heq | hm
        · rw [surrogate.inj heq, hbyte]
          rfl
        · exact h m hm

theorem exists_encode_iff :
    (∃ bs, encode byte? s = .ok bs) ↔ ∀ n, .surrogate n ∈ s → (byte? n).isSome :=
  exists_encodeFrom_iff 0

/-- The first character of a list is encoded in front. -/
theorem exists_of_encode_cons {c : Char} (h : encode byte? (.char c :: s) = .ok bs) :
    ∃ rest, bs = String.utf8EncodeChar c ++ rest := by
  rw [encode, encodeFrom_char_cons] at h
  cases hrest : encodeFrom byte? 1 s with
  | error e =>
    rw [hrest] at h
    cases h
  | ok rest =>
    rw [hrest] at h
    exact ⟨rest, (Except.ok.inj h).symm⟩

/-- The bytes of glyphs without surrogates are those of a text. -/
theorem exists_text_of_encode_unescaped (h : encode unescaped? s = .ok bs) :
    ∃ t : Text, t.toGlyphs = s ∧ bs = Utf8.encode t := by
  have hnone := exists_encode_iff.mp ⟨bs, h⟩
  obtain ⟨t, rfl⟩ := exists_toGlyphs_eq_iff.mpr fun n hn => Bool.false_ne_true (hnone n hn)
  rw [encode_toGlyphs] at h
  exact ⟨t, rfl, (Except.ok.inj h).symm⟩

/-- U+DC80 to U+DCFF are the surrogates that stand for bytes. -/
theorem isSome_escaped?_iff (n : Fin 0x800) :
    (escaped? n).isSome ↔ 0xdc80 ≤ 0xd800 + n.val ∧ 0xd800 + n.val ≤ 0xdcff := by
  rw [escaped?]
  split
  · next h => exact iff_of_true rfl (by omega)
  · next h => exact iff_of_false Bool.false_ne_true (by omega)

end Glyph

end EntryRef
