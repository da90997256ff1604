import EntryRef.Proofs.Flag.Setting
import EntryRef.Proofs.Flag.Tokens
import EntryRef.Proofs.Reference.Written
import EntryRef.Reference.Change
import Mathlib.Data.List.Nodup

/-!
# Setting a flag and reading it

There are two ways to give a flag of a reference the value that a text stands for: setting it, and
reading the text of the reference with one more token behind it. They come to the same where the
flag accepts the text. Where it does not, setting fails, while reading takes no notice of the token
(`Reference.withFlag_agrees`).

A flag that is set puts a value in its own place, which no other flag has (`Flags.set_cases`), so
that settings of different flags may change places, and the last setting of a flag counts.

The text to start from does not always exist, since a flag may have a number that is too long to be
written (`Reference.text?`).
-/

namespace EntryRef

open Text
open Identifier (Clean)

variable {table : FlagTable}

/-! ### Places of flags -/

namespace Flags

variable {q r s : Flags table} {f : Flag} {i j : Nat}

private theorem put_put (q : Flags table) (i : Nat) (v w : Option FlagValue) :
    (q.put i v).put i w = q.put i w := by
  rw [eq_iff_values_eq]
  exact List.set_set ..

private theorem put_comm (q : Flags table) (h : i ≠ j) (v w : Option FlagValue) :
    (q.put i v).put j w = (q.put j w).put i v := by
  rw [eq_iff_values_eq]
  exact List.set_comm v w h

/-- A known flag puts what it accepts in its place, whatever the flags are before. -/
theorem set_cases (table : FlagTable) (name : Text) :
    (∃ i f, table[i]? = some f ∧ f.name = name ∧
      ∀ (q : Flags table) given, q.set name given = (accept f given).map (q.put i)) ∨
    ((∀ f ∈ table, f.name ≠ name) ∧
      ∀ (q : Flags table) given, q.set name given = .error (.unknown name)) := by
  have hfind : (table.find? fun f => f.name = name) = (index? table name).bind (table[·]?) :=
    List.find?_eq_bind_findIdx?_getElem?
  cases hindex : index? table name with
  | none =>
    rw [hindex, Option.bind_none] at hfind
    refine .inr ⟨fun f hf => ?_, fun q given => ?_⟩
    · simpa using List.find?_eq_none.mp hfind f hf
    · simp only [set, hfind]
  | some i =>
    rw [hindex, Option.bind_some] at hfind
    obtain ⟨hi, hname, -⟩ := List.findIdx?_eq_some_iff_getElem.mp hindex
    rw [List.getElem?_eq_getElem hi] at hfind
    refine .inl ⟨i, table[i], List.getElem?_eq_getElem hi, by simpa using hname, fun q given => ?_⟩
    simp only [set, hfind, hindex]

/-- Where names differ, each flag of the table has a place. -/
theorem exists_place (h : table.Lawful) (hf : f ∈ table) : ∃ i, table[i]? = some f ∧
    ∀ (q : Flags table) given, q.set f.name given = (accept f given).map (q.put i) := by
  rcases set_cases table f.name with ⟨i, g, hg, hname, hset⟩ | ⟨hother, -⟩
  · obtain rfl : g = f := List.inj_on_of_nodup_map h.nodup (List.mem_of_getElem? hg) hf hname
    exact ⟨i, hg, hset⟩
  · exact absurd rfl (hother f hf)

/-- The last setting of a flag counts. -/
theorem set_of_set {name : Text} {v w : Given} (h : q.set name v = .ok r) :
    r.set name w = q.set name w := by
  rcases set_cases table name with ⟨i, f, -, -, hset⟩ | ⟨-, hset⟩
  · rw [hset q v] at h
    cases haccept : accept f v with
    | error why =>
      rw [haccept] at h
      cases h
    | ok a =>
      rw [haccept] at h
      obtain rfl : q.put i a = r := Except.ok.inj h
      rw [hset, hset]
      exact congrArg (Except.map · (accept f w)) (funext fun b => put_put q i a b)
  · rw [hset q v] at h
    cases h

/-- Settings of flags with different names change places. -/
theorem set_comm {m n : Text} (hne : m ≠ n) {v w : Given} (hr : q.set m v = .ok r)
    (hs : r.set n w = .ok s) : ∃ r', q.set n w = .ok r' ∧ r'.set m v = .ok s := by
  rcases set_cases table m with ⟨i, f, hi, rfl, hm⟩ | ⟨-, hm⟩
  · rcases set_cases table n with ⟨j, g, hj, rfl, hn⟩ | ⟨-, hn⟩
    · rw [hm q v] at hr
      rw [hn r w] at hs
      cases hv : accept f v with
      | error why =>
        rw [hv] at hr
        cases hr
      | ok a =>
        cases hw : accept g w with
        | error why =>
          rw [hw] at hs
          cases hs
        | ok b =>
          rw [hv] at hr
          rw [hw] at hs
          obtain rfl : q.put i a = r := Except.ok.inj hr
          obtain rfl : (q.put i a).put j b = s := Except.ok.inj hs
          have hij : i ≠ j := by
            rintro rfl
            exact hne (congrArg Flag.name (Option.some.inj (hi.symm.trans hj)))
          refine ⟨q.put j b, ?_, ?_⟩
          · rw [hn q w, hw]
            rfl
          · rw [hm _ v, hv, put_comm q hij]
            rfl
    · rw [hn r w] at hs
      cases hs
  · rw [hm q v] at hr
    cases hr

/-! ### One more token -/

/-- The mark in front of one more token behind the query: a question mark if no flag is set. -/
def mark (q : Flags table) : Char := if q = .none table then '?' else '&'

variable {t : Text}

/-- The flag that a token names takes what it reads from it, and no other flag takes anything. -/
theorem getElem_ofQuery_token (h : table.Lawful) (hi : table[i]? = some f) (ht : '=' ∉ t)
    (hsep : '&' ∉ t) (hj : j < (ofQuery table (f.name ++ '=' :: t)).values.length) :
    (ofQuery table (f.name ++ '=' :: t)).values[j] =
      if i = j then (f.read t).toOption else Option.none := by
  have hplain := h.plain f (List.mem_of_getElem? hi)
  have hwhole : '&' ∉ f.name ++ '=' :: t := by
    rw [List.mem_append, List.mem_cons]
    rintro (hm | hm | hm)
    · exact hplain.not_mem (by decide) hm
    · exact absurd hm (by decide)
    · exact hsep hm
  have hcut : pieces '=' (f.name ++ '=' :: t) = [f.name, t] := by
    rw [pieces_append_cons (hplain.not_mem (by decide)), pieces_eq_self ht]
  obtain ⟨hlt, rfl⟩ := List.getElem?_eq_some_iff.mp hi
  have hjlt : j < table.length := by simpa [ofQuery] using hj
  have hname : table[i].name = table[j].name ↔ i = j := by
    have hlength : (table.map Flag.name).length = table.length := List.length_map Flag.name
    have hinj : (table.map Flag.name)[i] = (table.map Flag.name)[j] ↔ i = j :=
      h.nodup.getElem_inj_iff
    rwa [List.getElem_map, List.getElem_map] at hinj
  simp only [ofQuery, List.getElem_map, pieces_eq_self hwhole, List.filterMap_cons,
    List.filterMap_nil, Flag.ofToken?, hcut, hname]
  by_cases hij : i = j
  · subst hij
    cases table[i].read t <;> simp [Except.toOption]
  · simp [hij]

/-- Behind flags of which the named one is not set, a token sets this one if its value is
accepted. -/
theorem exists_query_of_token (h : table.Lawful) (hi : table[i]? = some f) (ht : '=' ∉ t)
    (hsep : '&' ∉ t) (hq : q.Kept) (hunset : q.values[i]? = some Option.none) :
    ∃ r, q.toQuery ++ q.mark :: (f.name ++ '=' :: t) = '?' :: r ∧
      ofQuery table r = q.put i (f.read t).toOption := by
  have hvalues : List.zipWith Option.or (ofQuery table (f.name ++ '=' :: t)).values q.values =
      (q.put i (f.read t).toOption).values := by
    refine List.ext_getElem ?_ fun j hj hj' => ?_
    · simp [put, (ofQuery table _).length_values, q.length_values]
    · rw [List.getElem_zipWith, getElem_ofQuery_token h hi ht hsep]
      simp only [put, List.getElem_set]
      split
      · next hij =>
        subst hij
        rw [List.getElem?_eq_some_iff] at hunset
        rw [hunset.choose_spec, Option.or_none]
      · rfl
  by_cases hnone : q = none table
  · refine ⟨f.name ++ '=' :: t, ?_, ?_⟩
    · rw [hnone, toQuery_none, mark, if_pos rfl, List.nil_append]
    · rw [eq_iff_values_eq, ← hvalues, hnone, zipWith_or_none]
  · have htokens : q.tokens ≠ [] := fun hnil => hnone ((tokens_eq_nil_iff h hq).mp hnil)
    refine ⟨joined "&" q.tokens ++ '&' :: (f.name ++ '=' :: t), ?_, ?_⟩
    · rw [toQuery_of_tokens_ne_nil htokens, mark, if_neg hnone, List.cons_append]
    · rw [eq_iff_values_eq, values_ofQuery_append, ofQuery_joined_tokens h hq, hvalues]

end Flags

/-- What a flag of this library rejects is not a number. -/
theorem Flag.number_of_read_error {f : Flag} (hf : f = source ∨ f = depth) {t : Text}
    {why : FlagFault} (h : f.read t = .error why) : ∃ fault, why = .number fault := by
  rcases hf with rfl | rfl
  · cases h
  · simp only [depth] at h
    split at h
    · cases h
    · exact ⟨_, (Except.error.inj h).symm⟩

namespace Reference

variable {u : Reference table}

/-! ### Setting and reading -/

/-- A reference is read from its text with a token behind it as the one with that flag set. -/
theorem parse_append_token (left : Reference table) (h : table.Lawful) (hbase : Clean left.base)
    (hfragment : '#' ∉ left.base) (hq : left.flags.Kept) {f : Flag} {i : Nat}
    (hi : table[i]? = some f) (hunset : left.flags.values[i]? = some none) {t : Text} (ht : Clean t)
    (hmarks : ∀ c ∈ ['&', '=', '#'], c ∉ t) :
    parse table (left.toText ++ left.flags.mark :: (f.name ++ '=' :: t)) =
      .ok { left with flags := left.flags.put i (f.read t).toOption } := by
  have hname := h.plain f (List.mem_of_getElem? hi)
  obtain ⟨r, hr, hquery⟩ := Flags.exists_query_of_token h hi (hmarks '=' (by decide))
    (hmarks '&' (by decide)) hq hunset
  -- the mark is one of two, neither of which has a part in escapes or fragments
  have hmark : left.flags.mark = '?' ∨ left.flags.mark = '&' := by
    rw [Flags.mark]
    split
    · exact .inl rfl
    · exact .inr rfl
  have htoken : Clean (f.name ++ '=' :: t) :=
    (Clean.append_cons_iff (by decide) (by decide) (by decide)).mpr ⟨hname.clean, ht⟩
  have hclean : Clean ('?' :: r) := by
    rw [← hr]
    rcases hmark with hm | hm
    · rw [hm, Clean.append_cons_iff (by decide) (by decide) (by decide)]
      exact ⟨Flags.clean_toQuery h hq, htoken⟩
    · rw [hm, Clean.append_cons_iff (by decide) (by decide) (by decide)]
      exact ⟨Flags.clean_toQuery h hq, htoken⟩
  have hnumber : '#' ∉ '?' :: r := by
    rw [← hr, List.mem_append, List.mem_cons, List.mem_append, List.mem_cons]
    rintro (hm | hm | hm | hm | hm)
    · exact Flags.not_mem_toQuery h hq (by decide) hm
    · rcases hmark with hq | hq
      · exact absurd (hm.trans hq) (by decide)
      · exact absurd (hm.trans hq) (by decide)
    · exact hname.not_mem (by decide) hm
    · exact absurd hm (by decide)
    · exact hmarks '#' (by decide) hm
  have htext : left.toText ++ left.flags.mark :: (f.name ++ '=' :: t) =
      scheme ++ ':' :: (left.base ++ '?' :: r) := by
    rw [toText_eq, ← hr]
    simp
  have hwhole : before '#' (left.base ++ '?' :: r) = left.base ++ '?' :: r := by
    rw [before_append hfragment, before_eq_self hnumber]
  rw [htext, parse_scheme_append (hbase.append hclean) (by simp [hwhole])]
  congr 1
  ext1
  · change before '?' (before '#' (left.base ++ '?' :: r)) = left.base
    rw [hwhole, before_append_cons left.no_query]
  · change Flags.ofQuery table ((after? '?' (before '#' (left.base ++ '?' :: r))).getD []) = _
    rw [hwhole, after?_append_cons left.no_query, Option.getD_some, hquery]

private theorem withFlag_of_withFlag {x : Reference table} {name : Text} {v w : Given}
    (h : u.withFlag name v = .ok x) : x.withFlag name w = u.withFlag name w := by
  obtain ⟨q, hq, rfl⟩ := withFlag_eq_ok_iff.mp h
  rw [withFlag, withFlag, Flags.set_of_set hq]

private theorem withFlag_comm {x y : Reference table} {m n : Text} (hne : m ≠ n) {v w : Given}
    (hy : u.withFlag m v = .ok y) (hx : y.withFlag n w = .ok x) :
    ∃ z, u.withFlag n w = .ok z ∧ z.withFlag m v = .ok x := by
  obtain ⟨q, hq, rfl⟩ := withFlag_eq_ok_iff.mp hy
  obtain ⟨r, hr, rfl⟩ := withFlag_eq_ok_iff.mp hx
  obtain ⟨q', hq', hr'⟩ := Flags.set_comm hne hq hr
  refine ⟨{ u with flags := q' }, ?_, ?_⟩
  · exact withFlag_eq_ok_iff.mpr ⟨q', hq', rfl⟩
  · exact withFlag_eq_ok_iff.mpr ⟨r, hr', rfl⟩

/-- **Setting and reading.** A flag that accepts a text is set to what is read from the reference
without this flag and with a token of the text behind it. Of a text that the flag rejects, reading
takes no notice, while setting fails. Settings of different flags change places, and the last
setting of a flag counts. -/
theorem withFlag_agrees (ht : table = .standard ∨ table = .extended) (hbase : Clean u.base)
    (hfragment : '#' ∉ u.base) (hu : u.flags.Typed) :
    (∀ f ∈ table, ∀ t, Clean t → (∀ c ∈ ['&', '=', '#'], c ∉ t) →
      ∃ left, u.withFlag f.name .nothing = .ok left ∧
        (∀ v, f.read t = .ok v → ∃ x, u.withFlag f.name (.words t) = .ok x ∧
          ∀ s, left.text? = some s →
            parse table (s ++ left.flags.mark :: (f.name ++ '=' :: t)) = .ok x) ∧
        (∀ why, f.read t = .error why → (∃ fault, why = .number fault) ∧
          u.withFlag f.name (.words t) = .error why ∧
          ∀ s, left.text? = some s →
            parse table (s ++ left.flags.mark :: (f.name ++ '=' :: t)) = .ok left)) ∧
    (∀ m n, m ≠ n → ∀ v w x, (∃ y, u.withFlag m v = .ok y ∧ y.withFlag n w = .ok x) ↔
      ∃ y, u.withFlag n w = .ok y ∧ y.withFlag m v = .ok x) ∧
    ∀ n v w x, u.withFlag n v = .ok x → x.withFlag n w = u.withFlag n w := by
  refine ⟨fun f hf t hclean hmarks => ?_, fun m n hne v w x => ?_, fun n v w x h => ?_⟩
  · obtain ⟨i, hi, hset⟩ := Flags.exists_place (FlagTable.lawful_of_known ht) hf
    have hleft : u.withFlag f.name .nothing = .ok { u with flags := u.flags.put i none } :=
      withFlag_eq_ok_iff.mpr ⟨_, hset u.flags .nothing, rfl⟩
    have htyped : (u.flags.put i none).Typed :=
      Flags.typed_of_set ht hu (hset u.flags .nothing)
    have hlt : i < u.flags.values.length := by
      rw [u.flags.length_values]
      exact (List.getElem?_eq_some_iff.mp hi).choose
    have hunset : (u.flags.put i none).values[i]? = some none := List.getElem?_set_self hlt
    -- what is read from the text with one more token, whether or not its value is accepted
    have hparse : ∀ s, text? { u with flags := u.flags.put i none } = some s →
        parse table (s ++ (u.flags.put i none).mark :: (f.name ++ '=' :: t)) =
          .ok { u with flags := u.flags.put i (f.read t).toOption } := by
      intro s hs
      obtain ⟨rfl, hkept⟩ := kept_of_text? ht htyped hs
      rw [parse_append_token { u with flags := u.flags.put i none }
        (FlagTable.lawful_of_known ht) hbase hfragment hkept hi hunset hclean hmarks, Flags.put_put]
    refine ⟨_, hleft, fun v hv => ⟨{ u with flags := u.flags.put i (some v) }, ?_, ?_⟩,
      fun why hwhy => ⟨?_, ?_, ?_⟩⟩
    · refine withFlag_eq_ok_iff.mpr ⟨_, ?_, rfl⟩
      rw [hset, Flags.accept, hv]
      rfl
    · intro s hs
      rw [hparse s hs, hv]
      rfl
    · exact Flag.number_of_read_error (FlagTable.mem_of_known ht hf) hwhy
    · rw [withFlag, hset, Flags.accept, hwhy]
      rfl
    · intro s hs
      rw [hparse s hs, hwhy]
      rfl
  · constructor
    · rintro ⟨y, hy, hx⟩
      exact withFlag_comm hne hy hx
    · rintro ⟨y, hy, hx⟩
      exact withFlag_comm hne.symm hy hx
  · exact withFlag_of_withFlag h

/-- The depth is set to a number that is read, and it is not set to a text that is none. -/
theorem withFlag_agrees_depth : ∃ u x left : Reference .extended,
    u.toText = "kls:a%20b.jar!/B.kt?source=true&depth=-7".toList ∧
      left.text? = some "kls:a%20b.jar!/B.kt?source=true".toList ∧
      u.withFlag "depth".toList .nothing = .ok left ∧
      u.withFlag "depth".toList (.words "+0_8".toList) = .ok x ∧
      parse .extended "kls:a%20b.jar!/B.kt?source=true&depth=+0_8".toList = .ok x ∧
      (∃ why, u.withFlag "depth".toList (.words ['x']) = .error why) ∧
      parse .extended "kls:a%20b.jar!/B.kt?source=true&depth=x".toList = .ok left := by
  have htyped : (Flags.ofQuery .extended "source=true&depth=-7".toList).Typed :=
    Flags.typed_ofQuery (.inr rfl) _
  have hbase : Clean "a%20b.jar!/B.kt".toList := ⟨Identifier.legal_of_all (by decide),
    (Identifier.badEscape?_eq_none_iff (i := 0)).mp rfl⟩
  have hu := (withFlag_agrees (.inr rfl) (u := ⟨"a%20b.jar!/B.kt".toList, _, by decide⟩) hbase
    (by decide) htyped).1 Flag.depth (List.mem_cons_of_mem _ List.mem_cons_self)
  obtain ⟨left, hleft, haccepts, -⟩ := hu "+0_8".toList (Clean.of_all (by decide) (by decide))
    (by simp)
  obtain ⟨left', hleft', -, hrejects⟩ := hu ['x'] (Clean.of_all (by decide) (by decide)) (by simp)
  obtain rfl : left = left' := Except.ok.inj (hleft.symm.trans hleft')
  obtain ⟨x, hx, hparse⟩ := haccepts (.number 8) rfl
  obtain ⟨-, hwhy, hsame⟩ := hrejects _ rfl
  have hplace : left = ⟨"a%20b.jar!/B.kt".toList, ⟨[some (.truth true), none], rfl⟩, by decide⟩ :=
    (Except.ok.inj hleft).symm
  have htext : left.text? = some "kls:a%20b.jar!/B.kt?source=true".toList := by
    rw [hplace]
    rfl
  have hmark : left.flags.mark = '&' := by
    rw [hplace]
    rfl
  have hx' := hparse _ htext
  have hsame' := hsame _ htext
  rw [hmark] at hx' hsame'
  exact ⟨_, x, left, rfl, htext, hleft, hx, hx', ⟨_, hwhy⟩, hsame'⟩

end Reference

end EntryRef
