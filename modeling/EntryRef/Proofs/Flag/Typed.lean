import EntryRef.Proofs.Flag.Query

/-!
# Flags of their types are told apart by their query

A flag is `Typed` with a value of the type of its default. Such a value need not be read back from
its text, since a number may be too long to be read. It is still told by its text: a flag is
`Distinct` if what it writes for values of its type is plain and differs from value to value, and
all flags of this library are (`FlagTable.distinct_of_known`).

A token says which flag it sets, whether or not other flags are set, so that the tokens of typed
flags tell all of their values (`Told.eq_of_tokensOf_eq`), and so does the query
(`Flags.Typed.eq_of_toQuery_eq`).
-/

namespace EntryRef

open Text
open Identifier (Plain)

/-! ### Values of a type -/

/-- The value is of the type of the flag's default. -/
def Flag.Typed (f : Flag) : FlagValue → Prop
  | .truth _ => ∃ b, f.default = .truth b
  | .number _ => ∃ n, f.default = .number n
  | .words _ => ∃ t, f.default = .words t

/-- The text that the flag writes for a value of its type is plain and tells the value. -/
structure Flag.Distinct (f : Flag) : Prop where
  plain : ∀ v, f.Typed v → Plain (f.write v)
  eq_of_write_eq : ∀ v w, f.Typed v → f.Typed w → f.write v = f.write w → v = w

namespace Flag

variable {f : Flag} {v w : FlagValue}

/-- Values of one type stand for the same only if they are the same. -/
theorem Typed.same_iff (hv : f.Typed v) (hw : f.Typed w) : v.same w ↔ v = w := by
  -- values of two types would give the default two types
  have hmixed : ∀ {a b : FlagValue}, f.default = a → f.default = b → a = b :=
    fun ha hb => ha.symm.trans hb
  cases v with
  | truth b =>
    obtain ⟨c, hc⟩ := hv
    cases w with
    | truth d => cases b <;> cases d <;> decide
    | number n => exact absurd (hmixed hc hw.choose_spec) (by simp)
    | words t => exact absurd (hmixed hc hw.choose_spec) (by simp)
  | number m =>
    obtain ⟨k, hk⟩ := hv
    cases w with
    | truth d => exact absurd (hmixed hk hw.choose_spec) (by simp)
    | number n => simp [FlagValue.same, FlagValue.toGiven, Given.toNumber]
    | words t => exact absurd (hmixed hk hw.choose_spec) (by simp)
  | words s =>
    obtain ⟨r, hr⟩ := hv
    cases w with
    | truth d => exact absurd (hmixed hr hw.choose_spec) (by simp)
    | number n => exact absurd (hmixed hr hw.choose_spec) (by simp)
    | words t => simp [FlagValue.same, FlagValue.toGiven, Given.toNumber]

/-- The values of the flag for sources are the two truths. -/
theorem source_typed_iff : source.Typed v ↔ ∃ b, v = .truth b := by
  cases v <;> simp [Typed, source]

/-- The values of the flag for depths are the numbers. -/
theorem depth_typed_iff : depth.Typed v ↔ ∃ n, v = .number n := by
  cases v <;> simp [Typed, depth]

private theorem source_distinct : source.Distinct where
  plain v hv := by
    obtain ⟨b, rfl⟩ := source_typed_iff.mp hv
    exact (source_keeps b).plain
  eq_of_write_eq v w hv hw h := by
    obtain ⟨b, rfl⟩ := source_typed_iff.mp hv
    obtain ⟨c, rfl⟩ := source_typed_iff.mp hw
    have hread : source.read (source.write (.truth b)) = source.read (source.write (.truth c)) :=
      congrArg source.read h
    rw [(source_keeps b).read_write, (source_keeps c).read_write] at hread
    exact Except.ok.inj hread

/-- Numbers are told apart by how they are written. -/
private theorem depth_distinct : depth.Distinct where
  plain v hv := by
    obtain ⟨n, rfl⟩ := depth_typed_iff.mp hv
    exact plain_ofInt n
  eq_of_write_eq v w hv hw h := by
    obtain ⟨m, rfl⟩ := depth_typed_iff.mp hv
    obtain ⟨n, rfl⟩ := depth_typed_iff.mp hw
    have hwritten : ofInt m = ofInt n := h
    rw [ofInt_injective hwritten]

end Flag

/-- The flags of both tables of this library are distinct. -/
theorem FlagTable.distinct_of_known {table : FlagTable}
    (ht : table = .standard ∨ table = .extended) {f : Flag} (hf : f ∈ table) : f.Distinct := by
  rcases FlagTable.mem_of_known ht hf with rfl | rfl
  · exact Flag.source_distinct
  · exact Flag.depth_distinct

/-! ### Tokens -/

/-- Distinct flags with different plain names, and values of their types. -/
structure Told (ps : List (Flag × Option FlagValue)) : Prop where
  nodup : (ps.map fun p => p.1.name).Nodup
  plain : ∀ p ∈ ps, Plain p.1.name
  distinct : ∀ p ∈ ps, p.1.Distinct
  typed : ∀ p ∈ ps, ∀ v, p.2 = some v → p.1.Typed v

namespace Told

variable {ps qs : List (Flag × Option FlagValue)} {p : Flag × Option FlagValue}

theorem of_cons (h : Told (p :: ps)) : Told ps where
  nodup := (List.nodup_cons.mp h.nodup).2
  plain p hp := h.plain p (List.mem_cons_of_mem _ hp)
  distinct p hp := h.distinct p (List.mem_cons_of_mem _ hp)
  typed p hp := h.typed p (List.mem_cons_of_mem _ hp)

/-- No token has an ampersand in it, so that the tokens of a query are found again. -/
theorem ampersand_not_mem (h : Told ps) {t : Text} (ht : t ∈ tokensOf ps) : '&' ∉ t := by
  obtain ⟨f, v, hf, rfl⟩ := mem_tokensOf ht
  exact Flag.ampersand_not_mem_token (h.plain _ hf)
    ((h.distinct _ hf).plain v (h.typed _ hf v rfl))

/-- A token of one of the flags has the name of that flag before its equality sign. -/
theorem before_token (h : Told ps) {f : Flag} {v : Option FlagValue} (hf : (f, v) ∈ ps)
    (w : FlagValue) : before '=' (f.token w) = f.name :=
  before_append_cons ((h.plain _ hf).not_mem (by decide)) _

/-- The first flag has no token among those of the others. -/
theorem token_not_mem_tokensOf {f : Flag} {v : Option FlagValue} (h : Told ((f, v) :: ps))
    (w : FlagValue) : f.token w ∉ tokensOf ps := by
  intro hm
  obtain ⟨g, x, hg, htoken⟩ := mem_tokensOf hm
  have hname : f.name = g.name := by
    rw [← h.before_token List.mem_cons_self w, htoken, h.of_cons.before_token hg x]
  have hfresh : f.name ∉ ps.map fun p => p.1.name := (List.nodup_cons.mp h.nodup).1
  exact hfresh (List.mem_map.mpr ⟨(g, some x), hg, hname.symm⟩)

/-- The tokens of the same flags tell their values. -/
theorem eq_of_tokensOf_eq (hp : Told ps) (hq : Told qs)
    (hflags : ps.map Prod.fst = qs.map Prod.fst) (h : tokensOf ps = tokensOf qs) : ps = qs := by
  induction ps generalizing qs with
  | nil => exact (List.map_eq_nil_iff.mp hflags.symm).symm
  | cons p ps ih =>
    obtain ⟨q, qs, rfl⟩ : ∃ q rest, qs = q :: rest :=
      List.exists_cons_of_ne_nil fun hnil => by simp [hnil] at hflags
    obtain ⟨f, v⟩ := p
    obtain ⟨g, w⟩ := q
    obtain ⟨hfg, hrest⟩ := List.cons.inj hflags
    obtain rfl : f = g := hfg
    rw [tokensOf_cons, tokensOf_cons] at h
    -- a token of the first flag can only be the first token
    cases v with
    | none =>
      cases w with
      | none => rw [ih hp.of_cons hq.of_cons hrest h]
      | some w =>
        have hm : f.token w ∈ tokensOf ps := by
          change tokensOf ps = f.token w :: tokensOf qs at h
          rw [h]
          exact List.mem_cons_self
        exact absurd hm (hp.token_not_mem_tokensOf w)
    | some v =>
      cases w with
      | none =>
        have hm : f.token v ∈ tokensOf qs := by
          change f.token v :: tokensOf ps = tokensOf qs at h
          rw [← h]
          exact List.mem_cons_self
        exact absurd hm (hq.token_not_mem_tokensOf v)
      | some w =>
        obtain ⟨htoken, htokens⟩ := List.cons.inj h
        have hwritten : f.write v = f.write w :=
          (List.cons.inj (List.append_cancel_left htoken)).2
        have hvw : v = w := (hp.distinct _ List.mem_cons_self).eq_of_write_eq v w
          (hp.typed _ List.mem_cons_self v rfl) (hq.typed _ List.mem_cons_self w rfl) hwritten
        rw [hvw, ih hp.of_cons hq.of_cons hrest htokens]

end Told

/-! ### Queries -/

namespace Flags

variable {table : FlagTable} {q r : Flags table}

/-- Each flag that is set has a value of its type. -/
def Typed (q : Flags table) : Prop := ∀ p ∈ q.pairs, ∀ v, p.2 = some v → p.1.Typed v

theorem eq_iff_values_eq : q = r ↔ q.values = r.values := by
  cases q
  cases r
  rw [Flags.mk.injEq]

private theorem eq_of_pairs_eq (h : q.pairs = r.pairs) : q = r := by
  rw [eq_iff_values_eq, ← map_snd_pairs q, h, map_snd_pairs]

private theorem sameValue_iff {f : Flag} {v w : Option FlagValue} (hv : ∀ x, v = some x → f.Typed x)
    (hw : ∀ x, w = some x → f.Typed x) : sameValue v w ↔ v = w := by
  cases v with
  | none =>
    cases w with
    | none => exact iff_of_true rfl rfl
    | some y => exact iff_of_false Bool.false_ne_true (by simp)
  | some x =>
    cases w with
    | none => exact iff_of_false Bool.false_ne_true (by simp)
    | some y =>
      have hxy : x.same y ↔ x = y := (hv x rfl).same_iff (hw y rfl)
      rw [Option.some.injEq]
      exact hxy

private theorem all_sameValue_iff {fs : List Flag} {vs ws : List (Option FlagValue)}
    (hvs : vs.length = fs.length) (hws : ws.length = fs.length)
    (hv : ∀ p ∈ fs.zip vs, ∀ x, p.2 = some x → p.1.Typed x)
    (hw : ∀ p ∈ fs.zip ws, ∀ x, p.2 = some x → p.1.Typed x) :
    ((vs.zip ws).all fun (v, w) => sameValue v w) ↔ vs = ws := by
  induction fs generalizing vs ws with
  | nil =>
    obtain rfl : vs = [] := List.eq_nil_of_length_eq_zero hvs
    obtain rfl : ws = [] := List.eq_nil_of_length_eq_zero hws
    exact iff_of_true rfl rfl
  | cons f fs ih =>
    obtain ⟨v, vs, rfl⟩ := List.exists_cons_of_length_eq_add_one hvs
    obtain ⟨w, ws, rfl⟩ := List.exists_cons_of_length_eq_add_one hws
    rw [List.zip_cons_cons, List.forall_mem_cons] at hv hw
    have hrest : ((vs.zip ws).all fun (v, w) => sameValue v w) ↔ vs = ws :=
      ih (Nat.succ.inj hvs) (Nat.succ.inj hws) hv.2 hw.2
    rw [List.zip_cons_cons, List.all_cons, Bool.and_eq_true, hrest, List.cons.injEq]
    exact and_congr_left fun _ => sameValue_iff hv.1 hw.1

namespace Typed

theorem told (ht : table = .standard ∨ table = .extended) (hq : q.Typed) : Told q.pairs where
  nodup := by
    rw [map_pairs Flag.name]
    exact (FlagTable.lawful_of_known ht).nodup
  plain p hp := (FlagTable.lawful_of_known ht).plain p.1 (List.of_mem_zip hp).1
  distinct p hp := FlagTable.distinct_of_known ht (List.of_mem_zip hp).1
  typed := hq

/-- Flags are told by their tokens. -/
private theorem eq_of_tokens_eq (ht : table = .standard ∨ table = .extended) (hq : q.Typed)
    (hr : r.Typed) (h : q.tokens = r.tokens) : q = r := by
  have hflags : q.pairs.map Prod.fst = r.pairs.map Prod.fst :=
    (map_pairs id q).trans (map_pairs id r).symm
  exact eq_of_pairs_eq ((hq.told ht).eq_of_tokensOf_eq (hr.told ht) hflags h)

/-- Typed flags are told by their query. -/
theorem eq_of_toQuery_eq (ht : table = .standard ∨ table = .extended) (hq : q.Typed)
    (hr : r.Typed) (h : q.toQuery = r.toQuery) : q = r := by
  refine hq.eq_of_tokens_eq ht hr ?_
  by_cases hqnil : q.tokens = [] <;> by_cases hrnil : r.tokens = []
  · rw [hqnil, hrnil]
  · rw [toQuery_of_tokens_eq_nil hqnil, toQuery_of_tokens_ne_nil hrnil] at h
    cases h
  · rw [toQuery_of_tokens_ne_nil hqnil, toQuery_of_tokens_eq_nil hrnil] at h
    cases h
  · -- the tokens are the pieces of the query
    rw [toQuery_of_tokens_ne_nil hqnil, toQuery_of_tokens_ne_nil hrnil] at h
    have hpieces : pieces '&' (joined ['&'] q.tokens) = pieces '&' (joined ['&'] r.tokens) :=
      congrArg (pieces '&') (List.cons.inj h).2
    rwa [pieces_joined hqnil fun t hm => (hq.told ht).ampersand_not_mem hm,
      pieces_joined hrnil fun t hm => (hr.told ht).ampersand_not_mem hm] at hpieces

/-- Typed flags stand for the same only if they are the same. -/
theorem same_iff (hq : q.Typed) (hr : r.Typed) : q.same r ↔ q = r := by
  rw [eq_iff_values_eq]
  exact all_sameValue_iff q.length_values r.length_values hq hr

end Typed

end Flags

end EntryRef
