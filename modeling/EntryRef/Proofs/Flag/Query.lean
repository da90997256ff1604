import EntryRef.Flag.Query
import EntryRef.Proofs.Identifier
import EntryRef.Proofs.Text.Cutting
import EntryRef.Proofs.Text.Decimal

/-!
# Queries are read back

A flag `Keeps` a value if it reads it back from what it writes for it. A table is `Lawful` if its
names differ, if they are plain, and if every flag keeps every value that it reads. Both tables of
this library are lawful (`standard_lawful`, `extended_lawful`).

* `Flags.kept_ofQuery`: the flags that are read from any query are kept,
* `Flags.ofQuery_joined_tokens`: kept flags are read back from their tokens,
* `Flags.mem_toQuery`: the query of kept flags has no characters that mean something elsewhere.
-/

namespace EntryRef

open Text
open Identifier (Plain Clean)

/-! ### Lawful tables -/

/-- The flag reads the value back from what it writes, which is plain. -/
structure Flag.Keeps (f : Flag) (v : FlagValue) : Prop where
  read_write : f.read (f.write v) = .ok v
  plain : Plain (f.write v)

/-- Names differ and are plain, and a value that was read once can be written and read again. -/
structure FlagTable.Lawful (table : FlagTable) : Prop where
  nodup : (table.map Flag.name).Nodup
  plain : ∀ f ∈ table, Plain f.name
  keeps : ∀ f ∈ table, ∀ t v, f.read t = .ok v → f.Keeps v

theorem Flag.source_keeps (b : Bool) : Flag.source.Keeps (.truth b) := by
  cases b
  · exact ⟨rfl, Plain.of_all (by decide)⟩
  · exact ⟨rfl, Plain.of_all (by decide)⟩

/-- A number is written with digits and a minus sign. -/
theorem plain_ofInt (n : Int) : Plain (ofInt n) := by
  have hdigits : ∀ m : Nat, Plain (ofNat m) := by
    intro m c hc
    have hd : c.isDigit := Nat.isDigit_of_mem_toDigits (by decide) (by decide) hc
    exact .inl (by rw [Char.isAlphanum, hd, Bool.or_true])
  cases n with
  | ofNat m => exact hdigits m
  | negSucc m =>
    intro c hc
    rcases List.mem_cons.mp hc with rfl | hc
    · exact .inr rfl
    · exact hdigits (m + 1) c hc

/-- A number that can be read back is kept. -/
theorem Flag.depth_keeps {n : Int} (h : Readable n) : Flag.depth.Keeps (.number n) := by
  refine ⟨?_, plain_ofInt n⟩
  have hread : readInt (Flag.depth.write (.number n)) = .ok n := readInt_ofInt h
  simp only [Flag.depth] at hread ⊢
  rw [hread]

private theorem source_keeps_of_read (t : Text) (v : FlagValue) (h : Flag.source.read t = .ok v) :
    Flag.source.Keeps v := by
  obtain rfl : FlagValue.truth (Given.words t).saysTrue = v := Except.ok.inj h
  exact Flag.source_keeps _

/-- A number that was read can be read back, for it has no more digits than may be read. -/
private theorem depth_keeps_of_read (t : Text) (v : FlagValue) (h : Flag.depth.read t = .ok v) :
    Flag.depth.Keeps v := by
  simp only [Flag.depth] at h
  split at h
  · next n hn =>
    rw [← Except.ok.inj h]
    exact Flag.depth_keeps (readable_of_readInt hn)
  · cases h

/-- The standard table has one flag, which keeps what is read of it. -/
theorem FlagTable.standard_lawful : FlagTable.standard.Lawful where
  nodup := by decide
  plain f hf := by
    obtain rfl : f = Flag.source := List.mem_singleton.mp hf
    exact Plain.of_all (by decide)
  keeps f hf := by
    obtain rfl : f = Flag.source := List.mem_singleton.mp hf
    exact source_keeps_of_read

private theorem FlagTable.extended_lawful : FlagTable.extended.Lawful where
  nodup := by decide
  plain f hf := by
    simp only [FlagTable.extended, List.mem_cons, List.not_mem_nil, or_false] at hf
    rcases hf with rfl | rfl
    · exact Plain.of_all (by decide)
    · exact Plain.of_all (by decide)
  keeps f hf := by
    simp only [FlagTable.extended, List.mem_cons, List.not_mem_nil, or_false] at hf
    rcases hf with rfl | rfl
    · exact source_keeps_of_read
    · exact depth_keeps_of_read

/-- Both tables of this library are lawful. -/
theorem FlagTable.lawful_of_known {table : FlagTable} (h : table = .standard ∨ table = .extended) :
    table.Lawful := by
  rcases h with rfl | rfl
  · exact standard_lawful
  · exact extended_lawful

/-- Both tables have the same two flags at most. -/
theorem FlagTable.mem_of_known {table : FlagTable} (h : table = .standard ∨ table = .extended)
    {f : Flag} (hf : f ∈ table) : f = Flag.source ∨ f = Flag.depth := by
  rcases h with rfl | rfl
  · exact .inl (List.mem_singleton.mp hf)
  · simpa [FlagTable.extended] using hf

/-! ### Tokens -/

/-- A value that a token gives has been read from a part of it. -/
theorem Flag.exists_read_of_ofToken? {f : Flag} {t : Text} {v : FlagValue}
    (h : f.ofToken? t = some v) : ∃ value, f.read value = .ok v := by
  rw [ofToken?] at h
  split at h
  · next name value _ =>
    split at h
    · refine ⟨value, ?_⟩
      rcases hread : f.read value with why | w
      · rw [hread] at h
        cases h
      · rw [hread] at h
        rw [← Option.some.inj h]
    · cases h
  · cases h

/-- The token that sets a flag to a value. -/
def Flag.token (f : Flag) (v : FlagValue) : Text := f.name ++ '=' :: f.write v

/-- No token of plain parts is cut where tokens are. -/
theorem Flag.ampersand_not_mem_token {f : Flag} {v : FlagValue} (hname : Plain f.name)
    (hvalue : Plain (f.write v)) : '&' ∉ f.token v := by
  rw [token, List.mem_append, List.mem_cons]
  rintro (hm | hm | hm)
  · exact hname.not_mem (by decide) hm
  · exact absurd hm (by decide)
  · exact hvalue.not_mem (by decide) hm

/-- The tokens of flags with their values, where there are any. -/
def tokensOf (ps : List (Flag × Option FlagValue)) : List Text :=
  ps.filterMap fun (f, v) => v.map f.token

/-- The token of the first flag, if it has a value, stands before the others. -/
theorem tokensOf_cons (f : Flag) (v : Option FlagValue) (ps : List (Flag × Option FlagValue)) :
    tokensOf ((f, v) :: ps) = (v.map f.token).toList ++ tokensOf ps := by
  cases v with
  | none => rfl
  | some v => rfl

/-- Each token is that of a flag with the value it has. -/
theorem mem_tokensOf {ps : List (Flag × Option FlagValue)} {t : Text} (h : t ∈ tokensOf ps) :
    ∃ f v, (f, some v) ∈ ps ∧ t = f.token v := by
  obtain ⟨⟨f, w⟩, hf, hw⟩ := List.mem_filterMap.mp h
  obtain ⟨v, rfl, rfl⟩ := Option.map_eq_some_iff.mp hw
  exact ⟨f, v, hf, rfl⟩

/-- Flags with different plain names, and values that they keep. -/
structure Writable (ps : List (Flag × Option FlagValue)) : Prop where
  nodup : (ps.map fun p => p.1.name).Nodup
  plain : ∀ p ∈ ps, Plain p.1.name
  keeps : ∀ p ∈ ps, ∀ v, p.2 = some v → p.1.Keeps v

namespace Writable

variable {ps : List (Flag × Option FlagValue)} {p : Flag × Option FlagValue}

theorem of_cons (h : Writable (p :: ps)) : Writable ps where
  nodup := (List.nodup_cons.mp h.nodup).2
  plain p hp := h.plain p (List.mem_cons_of_mem _ hp)
  keeps p hp := h.keeps p (List.mem_cons_of_mem _ hp)

/-- A token is read by the flag that it names, and by no flag of another name. -/
theorem ofToken?_token (h : Writable ps) {g : Flag} {v : FlagValue} (hg : (g, some v) ∈ ps)
    (f : Flag) : f.ofToken? (g.token v) =
      if g.name = f.name then (f.read (g.write v)).toOption else none := by
  have hname : '=' ∉ g.name := (h.plain _ hg).not_mem (by decide)
  have hvalue : '=' ∉ g.write v := (h.keeps _ hg v rfl).plain.not_mem (by decide)
  have hcut : pieces '=' (g.token v) = [g.name, g.write v] := by
    rw [Flag.token, pieces_append_cons hname, pieces_eq_self hvalue]
  rw [Flag.ofToken?, hcut]

/-- A flag reads the token that is written for it. -/
private theorem ofToken?_own (h : Writable ps) {f : Flag} {v : FlagValue} (hf : (f, some v) ∈ ps) :
    f.ofToken? (f.token v) = some v := by
  rw [h.ofToken?_token hf, if_pos rfl, (h.keeps _ hf v rfl).read_write]
  rfl

/-- A flag reads no token that is written for another one, as their names differ. -/
private theorem ofToken?_other (h : Writable ps) {f g : Flag} {v : FlagValue}
    (hg : (g, some v) ∈ ps)
    (hne : g.name ≠ f.name) : f.ofToken? (g.token v) = none := by
  rw [h.ofToken?_token hg, if_neg hne]

/-- A flag that is not among some flags takes nothing from their tokens. -/
theorem filterMap_tokensOf_of_not_mem (h : Writable ps) {f : Flag}
    (hf : f.name ∉ ps.map fun p => p.1.name) : (tokensOf ps).filterMap f.ofToken? = [] := by
  rw [List.filterMap_eq_nil_iff]
  intro t ht
  obtain ⟨g, v, hg, rfl⟩ := mem_tokensOf ht
  exact h.ofToken?_other hg fun heq => hf (List.mem_map.mpr ⟨(g, some v), hg, heq⟩)

/-- Each flag takes its own token. -/
theorem filterMap_tokensOf (h : Writable ps) {f : Flag} {w : Option FlagValue}
    (hf : (f, w) ∈ ps) : (tokensOf ps).filterMap f.ofToken? = w.toList := by
  induction ps with
  | nil => exact absurd hf List.not_mem_nil
  | cons p ps ih =>
    obtain ⟨g, u⟩ := p
    have hname : g.name ∉ ps.map fun p => p.1.name := (List.nodup_cons.mp h.nodup).1
    rw [tokensOf_cons, List.filterMap_append]
    rcases List.mem_cons.mp hf with hf | hf
    · obtain ⟨rfl, rfl⟩ := Prod.mk.inj hf
      rw [h.of_cons.filterMap_tokensOf_of_not_mem hname, List.append_nil]
      cases w with
      | none => rfl
      | some v => exact List.filterMap_cons_some (h.ofToken?_own List.mem_cons_self)
    · have hne : g.name ≠ f.name := fun heq => hname (List.mem_map.mpr ⟨(f, w), hf, heq.symm⟩)
      have hhead : (u.map g.token).toList.filterMap f.ofToken? = [] := by
        cases u with
        | none => rfl
        | some v => exact List.filterMap_cons_none (h.ofToken?_other List.mem_cons_self hne)
      rw [hhead, List.nil_append, ih h.of_cons hf]

/-- No ampersand is in a token, so that the pieces of a query are its tokens. -/
theorem filterMap_pieces (h : Writable ps) (f : Flag) :
    (pieces '&' (joined "&" (tokensOf ps))).filterMap f.ofToken? =
      (tokensOf ps).filterMap f.ofToken? := by
  by_cases hnil : tokensOf ps = []
  · have hempty : f.ofToken? [] = none := rfl
    rw [hnil]
    exact List.filterMap_cons_none hempty
  · have hcut : pieces '&' (joined "&" (tokensOf ps)) = tokensOf ps := by
      refine pieces_joined hnil fun t ht => ?_
      obtain ⟨g, v, hg, rfl⟩ := mem_tokensOf ht
      exact Flag.ampersand_not_mem_token (h.plain _ hg) (h.keeps _ hg v rfl).plain
    rw [hcut]

end Writable

/-! ### Queries -/

namespace Flags

variable {table : FlagTable} {q : Flags table}

/-- The flags of the table with their values. -/
def pairs (q : Flags table) : List (Flag × Option FlagValue) := table.zip q.values

/-- Each flag that is set keeps its value. -/
def Kept (q : Flags table) : Prop := ∀ p ∈ q.pairs, ∀ v, p.2 = some v → p.1.Keeps v

/-- What is asked of the flags of the table is asked of the flags of the pairs. -/
theorem map_pairs {α : Type} (g : Flag → α) (q : Flags table) :
    q.pairs.map (fun p => g p.1) = table.map g := by
  have hfst : q.pairs.map Prod.fst = table := List.map_fst_zip (Nat.le_of_eq q.length_values.symm)
  calc q.pairs.map (fun p => g p.1) = (q.pairs.map Prod.fst).map g := List.map_map.symm
    _ = table.map g := congrArg (List.map g) hfst

theorem map_snd_pairs (q : Flags table) : q.pairs.map Prod.snd = q.values :=
  List.map_snd_zip (Nat.le_of_eq q.length_values)

/-- No flag has a value where none is set. -/
theorem snd_eq_none_of_mem_pairs_none {p : Flag × Option FlagValue} (h : p ∈ (none table).pairs) :
    p.2 = Option.none := by
  obtain ⟨f, -, hf⟩ := List.mem_map.mp (List.of_mem_zip h).2
  exact hf.symm

private theorem Kept.writable (hq : q.Kept) (h : table.Lawful) : Writable q.pairs where
  nodup := by
    rw [map_pairs Flag.name]
    exact h.nodup
  plain p hp := h.plain p.1 (List.of_mem_zip hp).1
  keeps := hq

/-- What is read of a query is kept, whatever the query. -/
theorem kept_ofQuery (h : table.Lawful) (query : Text) : (ofQuery table query).Kept := by
  intro p hp v hv
  have hzip : ∀ value : Flag → Option FlagValue,
      table.zip (table.map value) = table.map fun f => (f, value f) := by
    intro value
    have hmap : (table.map id).zip (table.map value) = table.map fun f => (f, value f) :=
      List.zip_map'
    rwa [List.map_id] at hmap
  rw [pairs, ofQuery, hzip] at hp
  obtain ⟨f, hf, rfl⟩ := List.mem_map.mp hp
  obtain ⟨token, -, htoken⟩ := List.mem_filterMap.mp (List.mem_of_getLast? hv)
  obtain ⟨value, hread⟩ := Flag.exists_read_of_ofToken? htoken
  exact h.keeps f hf value v hread

/-- **Round trip.** Flags that keep their values are read back from their tokens. -/
theorem ofQuery_joined_tokens (h : table.Lawful) (hq : q.Kept) :
    ofQuery table (joined "&" q.tokens) = q := by
  have hw : Writable q.pairs := hq.writable h
  -- each flag finds its own token and no other, if it is set
  have hvalue : ∀ p ∈ q.pairs,
      ((pieces '&' (joined "&" (tokensOf q.pairs))).filterMap p.1.ofToken?).getLast? = p.2 := by
    rintro ⟨f, w⟩ hp
    rw [hw.filterMap_pieces, hw.filterMap_tokensOf hp]
    cases w <;> rfl
  have hvalues : (ofQuery table (joined "&" q.tokens)).values = q.values :=
    calc (ofQuery table (joined "&" q.tokens)).values
        = q.pairs.map fun p =>
            ((pieces '&' (joined "&" (tokensOf q.pairs))).filterMap p.1.ofToken?).getLast? :=
          (map_pairs (fun f =>
            ((pieces '&' (joined "&" (tokensOf q.pairs))).filterMap f.ofToken?).getLast?) q).symm
      _ = q.pairs.map Prod.snd := List.map_congr_left hvalue
      _ = q.values := map_snd_pairs q
  cases q
  rw [ofQuery, Flags.mk.injEq]
  exact hvalues

@[simp]
theorem tokens_none (table : FlagTable) : (none table).tokens = [] := by
  change tokensOf (none table).pairs = []
  rw [tokensOf, List.filterMap_eq_nil_iff]
  rintro ⟨f, v⟩ hp
  obtain ⟨g, -, rfl⟩ := List.mem_map.mp (List.of_mem_zip hp).2
  rfl

/-- There is a token for each flag with a value, so that there is none only if all are without. -/
theorem tokens_eq_nil_iff (h : table.Lawful) (hq : q.Kept) : q.tokens = [] ↔ q = none table := by
  constructor
  · intro hnil
    have hback : ofQuery table (joined "&" q.tokens) = q := ofQuery_joined_tokens h hq
    rw [hnil] at hback
    exact hback.symm
  · rintro rfl
    exact tokens_none table

theorem toQuery_of_tokens_eq_nil (h : q.tokens = []) : q.toQuery = [] := by
  rw [toQuery, h]

theorem toQuery_of_tokens_ne_nil (h : q.tokens ≠ []) : q.toQuery = '?' :: joined "&" q.tokens := by
  unfold toQuery
  split
  · next hnil => exact absurd hnil h
  · rfl

/-- A query that is written has letters, digits and four marks. -/
private theorem mem_toQuery (h : table.Lawful) (hq : q.Kept) {c : Char} (hc : c ∈ q.toQuery) :
    c.isAlphanum ∨ c ∈ ['-', '?', '&', '='] := by
  have hplain : ∀ {s : Text}, Plain s → c ∈ s → c.isAlphanum ∨ c ∈ ['-', '?', '&', '='] := by
    intro s hs hc
    rcases hs c hc with hc | rfl
    · exact .inl hc
    · exact .inr List.mem_cons_self
  by_cases hnil : q.tokens = []
  · rw [toQuery_of_tokens_eq_nil hnil] at hc
    cases hc
  · rw [toQuery_of_tokens_ne_nil hnil, List.mem_cons] at hc
    rcases hc with rfl | hc
    · exact .inr (by decide)
    rcases mem_joined hc with hc | ⟨t, ht, hc⟩
    · obtain rfl : c = '&' := List.mem_singleton.mp hc
      exact .inr (by decide)
    obtain ⟨f, v, hf, rfl⟩ := mem_tokensOf ht
    rcases List.mem_append.mp hc with hc | hc
    · exact hplain ((hq.writable h).plain _ hf) hc
    rcases List.mem_cons.mp hc with rfl | hc
    · exact .inr (by decide)
    · exact hplain (hq _ hf v rfl).plain hc

theorem not_mem_toQuery (h : table.Lawful) (hq : q.Kept) {c : Char}
    (hc : ¬(c.isAlphanum ∨ c ∈ ['-', '?', '&', '='])) : c ∉ q.toQuery :=
  fun hm => hc (mem_toQuery h hq hm)

/-- A query that is written breaks none of the rules for identifiers. -/
theorem clean_toQuery (h : table.Lawful) (hq : q.Kept) : Clean q.toQuery := by
  refine Clean.of_not_mem (fun c hc => ?_) (not_mem_toQuery h hq (by decide))
  rcases mem_toQuery h hq hc with hc | hc
  · exact Identifier.isIllegal_of_isAlphanum hc
  · exact Identifier.legal_of_all (s := ['-', '?', '&', '=']) (by decide) c hc

end Flags

end EntryRef
