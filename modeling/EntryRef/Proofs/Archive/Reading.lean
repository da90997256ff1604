import EntryRef.Proofs.Archive.Extraction
import EntryRef.Proofs.Archive.Listing
import EntryRef.Proofs.Text.WellFormed

/-!
# Text is read exactly

Where no other encoding is asked for, the data of an entry are read as UTF-8: the text that comes
back is the one that the data write, with every character of it, and data that write no text are a
problem with reading, which comes from the first place where there is no character
(`readText_exact`). This holds of any opener, whatever its entries are.
-/

namespace EntryRef

open Text

variable {table : FlagTable} {codecs : Codecs} {opener : Opener table} {u : Reference table}
  {data : Bytes} {entry : Entry table}

/-- Data that are found become text behind the reading. -/
theorem Finds.exists_value_readText (hfinds : Finds opener u entry)
    (hdata : entry.readAll = .ok data) (encoding : Option Text) :
    ∃ path, (readText codecs opener u encoding).value =
      textOf codecs u path (encodingFor encoding) data := by
  obtain ⟨path, h, hpath, hopen, hfind⟩ := hfinds
  refine ⟨path, ?_⟩
  rw [value_readText, value_readData hpath hopen hfind, hdata]
  rfl

/-- No data are no text, as in UTF-8. -/
theorem textOf_default (u : Reference table) (path : Text) (data : Bytes) :
    textOf codecs u path defaultEncoding data = match Utf8.decode data with
      | .ok t => .ok t
      | .error f => .error (.archive
          ⟨.notText (u.inner?.getD []) path defaultEncoding f, some path, some u⟩) := by
  have hname : Encoding.ofName defaultEncoding = .ok .utf8 := by decide +kernel
  rw [textOf_of_ofName (by decide) hname]
  split
  · next hempty =>
    rw [List.isEmpty_iff.mp hempty]
    rfl
  · rfl

/-- In the default encoding it does not matter what else is registered. -/
theorem value_readText_default (codecs : Codecs) (opener : Opener table) (u : Reference table)
    {encoding : Option Text} (hencoding : encodingFor encoding = defaultEncoding) :
    (readText codecs opener u encoding).value =
      (readText Codecs.builtIn opener u encoding).value := by
  rw [value_readText, value_readText, hencoding]
  simp only [textOf_default]

/-- **Text is read exactly.** The data of an entry are read as the text that writes them in UTF-8,
and where they are not well formed, this is a problem with reading, which comes from their first
fault. -/
theorem readText_exact (hfinds : Finds opener u entry) (hdata : entry.readAll = .ok data)
    {encoding : Option Text} (hencoding : encodingFor encoding = defaultEncoding) :
    (∀ t, (readText codecs opener u encoding).value = .ok t ↔ data = Utf8.encode t) ∧
    ((∃ e, (readText codecs opener u encoding).value = .error (.archive e) ∧
        e.problem.kind = .reading ∧
        ∃ f, e.problem.cause? = some (.decoding f) ∧ Utf8.IsFirstIn f data) ↔
      ¬Utf8.WellFormed data) := by
  obtain ⟨path, hread⟩ := hfinds.exists_value_readText hdata encoding
  rw [hread, hencoding, textOf_default, Utf8.wellFormed_iff_exists_decode]
  simp only [← Utf8.decode_eq_ok_iff]
  cases hdecode : Utf8.decode data with
  | ok s =>
    refine ⟨fun t => by simp, iff_of_false ?_ (not_not.mpr ⟨s, rfl⟩)⟩
    rintro ⟨e, he, -⟩
    cases he
  | error f =>
    refine ⟨fun t => by simp, iff_of_true ?_ ?_⟩
    · exact ⟨_, rfl, rfl, f, rfl, Utf8.isFirstIn_of_decode hdecode⟩
    · rintro ⟨t, ht⟩
      cases ht

/-- An archive in memory whose first entry starts with a mark and has a line end of two characters,
a null character and one of two bytes. The second entry ends in a half of a pair. -/
def Memory.written : Opener .standard :=
  Memory.opener [("l.jar".toList,
    .ok [⟨"a.txt".toList, [0xef, 0xbb, 0xbf, 0x0d, 0x0a, 0x00, 0xc3, 0xa9], none, none, 0⟩,
      ⟨"b.txt".toList, [0x68, 0xed, 0xa0, 0x80], none, none, 0⟩])]

theorem readText_exact_memory :
    (readText Codecs.builtIn Memory.written (.ofSpecific _ "l.jar!/a.txt".toList)
        (some [])).value =
        .ok ['\uFEFF', '\r', '\n', '\x00', 'é'] ∧
      ∃ e f, (readText Codecs.builtIn Memory.written (.ofSpecific _ "l.jar!/b.txt".toList)
          none).value = .error (.archive e) ∧ e.problem.kind = .reading ∧
          e.problem.cause? = some (.decoding f) ∧ Utf8.IsFirstIn f [0x68, 0xed, 0xa0, 0x80] := by
  have hfinds : Finds Memory.written (.ofSpecific _ "l.jar!/a.txt".toList) _ :=
    ⟨"l.jar".toList, _, rfl, rfl, rfl⟩
  have hfinds' : Finds Memory.written (.ofSpecific _ "l.jar!/b.txt".toList) _ :=
    ⟨"l.jar".toList, _, rfl, rfl, rfl⟩
  have hempty : encodingFor (some []) = defaultEncoding := rfl
  have hnone : encodingFor none = defaultEncoding := rfl
  refine ⟨((readText_exact hfinds rfl hempty).1 _).mpr (by decide), ?_⟩
  obtain ⟨e, he, hkind, f, hcause, hfirst⟩ :=
    (readText_exact hfinds' rfl hnone).2.mpr (by decide)
  exact ⟨e, f, he, hkind, hcause, hfirst⟩

end EntryRef
