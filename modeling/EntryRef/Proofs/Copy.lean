import EntryRef.Copy

/-!
# Copying gives the content

`Source.Takes` says that the reads of a source, as long as they succeed, take their bytes off the
front of the content of its states. What is copied is then a prefix of the content, and a read that
fails is made in a state that copying comes to (`Source.Takes.copy`). Where the reads leave nothing
out, which is `Source.Gives`, all of the content is copied unless a read fails
(`Source.Gives.copy`).

If copying fails, what it has written are the chunks that the reads gave before the one that failed
(`Source.failsAfter_of_copy`). If it does not fail, they are all the chunks that the reads gave
before the one that gave nothing (`Source.copy_eq_iff_endsAfter`).

Sources come with a bound on what is left, so that copying them ends. A reader need not have one.
`Source.limited` bounds the number of its reads instead, and where the reads come to an end the
limit does not matter (`Source.copy_everything`).
-/

namespace EntryRef.Source

variable {ε σ : Type} {src : Source ε σ} {size : Int} {content : σ → Bytes} {inv : σ → Prop}

/-- In the states with the property `inv`, a read of the given size that succeeds takes its bytes
off the front of the content, and may leave out some of what is behind them. -/
structure Takes (src : Source ε σ) (size : Int) (content : σ → Bytes) (inv : σ → Prop) : Prop where
  keeps {s t : σ} {bs : Bytes} : inv s → src.read size s = .ok (bs, t) → inv t
  content_prefix {s t : σ} {bs : Bytes} :
    inv s → src.read size s = .ok (bs, t) → bs ++ content t <+: content s

private theorem Takes.copyOnto (hsrc : src.Takes size content inv) (s : σ) (writes : Array Bytes)
    (asked : Array Int) (hs : inv s) :
    ∃ more, (src.copyOnto size s writes asked).writes = writes.toList ++ more ∧
      more.flatten <+: content s ∧
      ∀ e, (src.copyOnto size s writes asked).fault = some e →
        ∃ t, inv t ∧ src.read size t = .error e := by
  fun_induction src.copyOnto size s writes asked with
  | case1 s writes asked e he =>
    refine ⟨[], (List.append_nil _).symm, List.nil_prefix, ?_⟩
    rintro _ ⟨⟩
    exact ⟨s, hs, he⟩
  | case2 s writes asked t h => exact ⟨[], (List.append_nil _).symm, List.nil_prefix, nofun⟩
  | case3 s writes asked bs t h hbs hless ih =>
    obtain ⟨more, hwrites, hmore, hfails⟩ := ih (hsrc.keeps hs h)
    refine ⟨bs :: more, ?_, ?_, hfails⟩
    · rw [hwrites, Array.toList_push, List.append_assoc]
      rfl
    · rw [List.flatten_cons]
      exact ((List.prefix_append_right_inj bs).mpr hmore).trans (hsrc.content_prefix hs h)

/-- **Copying gives the first of the content**, and fails in a state that it comes to. -/
theorem Takes.copy (hsrc : src.Takes size content inv) {s : σ} (hs : inv s) :
    (src.copy size s).writes.flatten <+: content s ∧
      ∀ e, (src.copy size s).fault = some e → ∃ t, inv t ∧ src.read size t = .error e := by
  obtain ⟨more, hwrites, hmore, hfails⟩ := hsrc.copyOnto s #[] #[] hs
  rw [Source.copy, hwrites]
  exact ⟨hmore, hfails⟩

/-! ### How reads end -/

/-- From a state on, reads of the given size give the chunks, of which none is empty, and then the
failure. -/
inductive FailsAfter (src : Source ε σ) (size : Int) : σ → List Bytes → ε → Prop
  | now {s : σ} {e : ε} (hread : src.read size s = .error e) : FailsAfter src size s [] e
  | later {s t : σ} {bs : Bytes} {chunks : List Bytes} {e : ε}
    (hread : src.read size s = .ok (bs, t)) (hbs : bs ≠ [])
    (hrest : FailsAfter src size t chunks e) : FailsAfter src size s (bs :: chunks) e

/-- From a state on, reads of the given size give the chunks, of which none is empty, and then
nothing. What further reads would give does not matter. -/
inductive EndsAfter (read : Int → σ → Except ε (Bytes × σ)) (size : Int) : σ → List Bytes → Prop
  | now {s t : σ} (hread : read size s = .ok ([], t)) : EndsAfter read size s []
  | later {s t : σ} {bs : Bytes} {chunks : List Bytes} (hread : read size s = .ok (bs, t))
    (hbs : bs ≠ []) (hrest : EndsAfter read size t chunks) : EndsAfter read size s (bs :: chunks)

/-- Copying writes what is read, and fails if and only if the last read does. -/
theorem exists_chunks_of_copyOnto (src : Source ε σ) (size : Int) (s : σ) (writes : Array Bytes)
    (asked : Array Int) : ∃ chunks,
      (src.copyOnto size s writes asked).writes = writes.toList ++ chunks ∧
      ((src.copyOnto size s writes asked).fault = none → EndsAfter src.read size s chunks) ∧
      ∀ e, (src.copyOnto size s writes asked).fault = some e → FailsAfter src size s chunks e := by
  fun_induction src.copyOnto size s writes asked with
  | case1 s writes asked why hread =>
    refine ⟨[], (List.append_nil _).symm, nofun, ?_⟩
    rintro _ ⟨⟩
    exact .now hread
  | case2 s writes asked t hread =>
    exact ⟨[], (List.append_nil _).symm, fun _ => .now hread, nofun⟩
  | case3 s writes asked bs t hread hbs hless ih =>
    obtain ⟨chunks, hwrites, hends, hfails⟩ := ih
    refine ⟨bs :: chunks, ?_, fun h => .later hread hbs (hends h),
      fun e h => .later hread hbs (hfails e h)⟩
    rw [hwrites, Array.toList_push, List.append_assoc]
    rfl

/-- What a copy that fails has written is what was read before. -/
theorem failsAfter_of_copy {s : σ} {e : ε} (h : (src.copy size s).fault = some e) :
    FailsAfter src size s (src.copy size s).writes e := by
  obtain ⟨chunks, hwrites, -, hfails⟩ := exists_chunks_of_copyOnto src size s #[] #[]
  rw [Source.copy, hwrites]
  exact hfails e h

/-- What a copy that does not fail has written is all that was read. -/
theorem endsAfter_of_copy {s : σ} (h : (src.copy size s).fault = none) :
    EndsAfter src.read size s (src.copy size s).writes := by
  obtain ⟨chunks, hwrites, hends, -⟩ := exists_chunks_of_copyOnto src size s #[] #[]
  rw [Source.copy, hwrites]
  exact hends h

/-- In the states with the property `inv`, a read of the given size that succeeds gives the first
part of the content and leaves the rest, and gives something unless there is none. -/
structure Gives (src : Source ε σ) (size : Int) (content : σ → Bytes) (inv : σ → Prop) : Prop where
  keeps {s t : σ} {bs : Bytes} : inv s → src.read size s = .ok (bs, t) → inv t
  content_eq {s t : σ} {bs : Bytes} :
    inv s → src.read size s = .ok (bs, t) → content s = bs ++ content t
  at_end {s t : σ} : inv s → src.read size s = .ok ([], t) → content s = []

theorem Gives.takes (hsrc : src.Gives size content inv) : src.Takes size content inv :=
  ⟨hsrc.keeps, fun hs h => hsrc.content_eq hs h ▸ List.prefix_rfl⟩

/-- Chunks after which there is nothing are all of the content. -/
private theorem Gives.flatten_eq (hsrc : src.Gives size content inv) {s : σ} {chunks : List Bytes}
    (h : EndsAfter src.read size s chunks) (hs : inv s) : chunks.flatten = content s := by
  induction h with
  | now hread => exact (hsrc.at_end hs hread).symm
  | later hread hbs hrest ih =>
    rw [hsrc.content_eq hs hread, List.flatten_cons, ih (hsrc.keeps hs hread)]

/-- **Copying gives the content.** -/
theorem Gives.copy (hsrc : src.Gives size content inv) {s : σ} (hs : inv s)
    (h : (src.copy size s).fault = none) : (src.copy size s).writes.flatten = content s :=
  hsrc.flatten_eq (endsAfter_of_copy h) hs

private theorem append_of_read_memory {s t bs : Bytes} (h : (memory ε).read size s = .ok (bs, t)) :
    s = bs ++ t := by
  simp only [memory] at h
  split at h
  · obtain ⟨rfl, rfl⟩ := Prod.mk.inj (Except.ok.inj h)
    exact (List.append_nil _).symm
  · rw [List.splitAt_eq] at h
    obtain ⟨rfl, rfl⟩ := Prod.mk.inj (Except.ok.inj h)
    exact (List.take_append_drop _ s).symm

/-- What is copied of data that break off is the front of them. -/
theorem prefix_copy_broken (why : ε) (data : Bytes) :
    ((broken why).copy size data).writes.flatten <+: data := by
  have htakes : (broken why).Takes size id fun _ => True := by
    refine ⟨fun _ _ => trivial, fun {s t bs} _ hread => ?_⟩
    simp only [broken] at hread
    split at hread
    · cases hread
    · exact (append_of_read_memory hread).symm ▸ List.prefix_rfl
  exact (htakes.copy trivial).1

private theorem not_failsAfter_memory {s : Bytes} {chunks : List Bytes} {e : ε} :
    ¬FailsAfter (memory ε) size s chunks e := by
  intro h
  induction h with
  | now hread => cases hread
  | later _ _ _ ih => exact ih

/-- Copying data in memory does not fail. -/
theorem fault_copy_memory (size : Int) (data : Bytes) :
    ((memory ε).copy size data).fault = none := by
  cases h : ((memory ε).copy size data).fault with
  | none => rfl
  | some e => exact absurd (failsAfter_of_copy h) not_failsAfter_memory

/-- One read gives something, and the next one fails. -/
theorem copy_of_second_fails {s t : σ} {bs : Bytes} {e : ε} (hbs : bs ≠ [])
    (hfirst : src.read size s = .ok (bs, t)) (hsecond : src.read size t = .error e) :
    src.copy size s = ⟨[bs], [size, size], some e⟩ := by
  rw [Source.copy, Source.copyOnto]
  split
  · next h => cases hfirst.symm.trans h
  next h =>
  cases hfirst.symm.trans h
  rw [dif_neg hbs, Source.copyOnto]
  split
  · next h =>
    cases hsecond.symm.trans h
    rfl
  · next h => cases hsecond.symm.trans h

/-! ### Reads that do not fail -/

namespace EndsAfter

variable {read : Int → σ → Except ε (Bytes × σ)} {s : σ} {chunks : List Bytes}

theorem ne_nil (h : EndsAfter read size s chunks) : ∀ bs ∈ chunks, bs ≠ [] := by
  induction h with
  | now => exact nofun
  | later _ hbs _ ih => exact List.forall_mem_cons.mpr ⟨hbs, ih⟩

/-- What holds of everything that is read holds of the chunks. -/
theorem forall_mem {p : Bytes → Prop} (h : EndsAfter read size s chunks)
    (hp : ∀ s t bs, read size s = .ok (bs, t) → p bs) : ∀ bs ∈ chunks, p bs := by
  induction h with
  | now => exact nofun
  | later hread _ _ ih => exact List.forall_mem_cons.mpr ⟨hp _ _ _ hread, ih⟩

theorem copyOnto (h : EndsAfter src.read size s chunks) (writes : Array Bytes)
    (asked : Array Int) : src.copyOnto size s writes asked =
      ⟨writes.toList ++ chunks, asked.toList ++ List.replicate (chunks.length + 1) size, none⟩ := by
  induction h generalizing writes asked with
  | now hend =>
    rw [Source.copyOnto]
    split
    · next hread => cases hend.symm.trans hread
    · next hread =>
      cases hend.symm.trans hread
      rw [dif_pos rfl, Array.toList_push, List.append_nil]
      rfl
  | @later s t bs chunks hnext hbs _ ih =>
    rw [Source.copyOnto]
    split
    · next hread => cases hnext.symm.trans hread
    · next hread =>
      cases hnext.symm.trans hread
      rw [dif_neg hbs, ih, Array.toList_push, Array.toList_push, List.append_assoc,
        List.append_assoc]
      rfl

end EndsAfter

/-- The reads end after the chunks if and only if copying writes just these, and asks once more for
what is behind the last of them. -/
theorem copy_eq_iff_endsAfter {s : σ} {chunks : List Bytes} :
    src.copy size s = ⟨chunks, List.replicate (chunks.length + 1) size, none⟩ ↔
      EndsAfter src.read size s chunks := by
  constructor
  · intro h
    have hchunks : EndsAfter src.read size s (src.copy size s).writes :=
      endsAfter_of_copy (by rw [h])
    rwa [h] at hchunks
  · exact fun h => h.copyOnto #[] #[]

/-! ### Readers without a bound -/

/-- Any reader, with a limit on the number of its reads. Where the limit is reached there is nothing
more to come. -/
def limited (read : Int → σ → Except ε (Bytes × σ)) : Source ε (σ × Nat) where
  read
    | _, (s, 0) => .ok ([], s, 0)
    | size, (s, limit + 1) => (read size s).map fun (bs, t) => (bs, t, limit)
  left := Prod.snd
  left_lt := by
    rintro size ⟨s, limit⟩ ⟨t, left⟩ bs h hbs
    cases limit with
    | zero => exact absurd (congrArg Prod.fst (Except.ok.inj h)).symm hbs
    | succ limit =>
      change (read size s).map _ = _ at h
      cases hread : read size s with
      | error e =>
        rw [hread] at h
        cases h
      | ok result =>
        rw [hread] at h
        cases h
        exact Nat.lt_succ_self _

/-- A limit that is not reached does not matter. -/
theorem EndsAfter.limited {read : Int → σ → Except ε (Bytes × σ)} {s : σ} {chunks : List Bytes}
    (h : EndsAfter read size s chunks) {limit : Nat} (hlimit : chunks.length < limit) :
    EndsAfter (limited read).read size (s, limit) chunks := by
  induction h generalizing limit with
  | @now s t hread =>
    obtain ⟨limit, rfl⟩ := Nat.exists_eq_add_one_of_ne_zero (Nat.ne_zero_of_lt hlimit)
    refine .now (t := (t, limit)) ?_
    change (read size s).map _ = _
    rw [hread]
    rfl
  | @later s t bs chunks hread hbs _ ih =>
    obtain ⟨limit, rfl⟩ := Nat.exists_eq_add_one_of_ne_zero (Nat.ne_zero_of_lt hlimit)
    refine .later (t := (t, limit)) ?_ hbs (ih (Nat.lt_of_succ_lt_succ hlimit))
    change (read size s).map _ = _
    rw [hread]
    rfl

/-! ### Data in memory -/

private theorem gives_memory (hsize : size ≠ 0) : (memory ε).Gives size id fun _ => True where
  keeps _ _ := trivial
  content_eq _ := append_of_read_memory
  at_end {s t} _ h := by
    simp only [memory] at h
    split at h
    · exact (Prod.mk.inj (Except.ok.inj h)).1
    · next hpos =>
      rw [List.splitAt_eq] at h
      have htake := (Prod.mk.inj (Except.ok.inj h)).1
      rcases List.take_eq_nil_iff.mp htake with hzero | hnil
      · omega
      · exact hnil

/-- A read of positive size gives no more than it asks for. -/
theorem length_read_memory_le {s t bs : Bytes} (hsize : 0 < size)
    (h : (memory ε).read size s = .ok (bs, t)) : (bs.length : Int) ≤ size := by
  simp only [memory] at h
  rw [if_neg (by omega), List.splitAt_eq] at h
  rw [← (Prod.mk.inj (Except.ok.inj h)).1, List.length_take]
  omega

/-- Copying data in memory with a size other than zero writes all of them, in pieces that are not
empty and, where the size is positive, not longer than it. -/
theorem exists_copy_memory (hsize : size ≠ 0) (data : Bytes) : ∃ writes : List Bytes,
    (memory ε).copy size data = ⟨writes, List.replicate (writes.length + 1) size, none⟩ ∧
      writes.flatten = data ∧ (∀ bs ∈ writes, bs ≠ []) ∧
      (0 < size → ∀ bs ∈ writes, (bs.length : Int) ≤ size) := by
  have hfault : ((memory ε).copy size data).fault = none := fault_copy_memory size data
  have hends := endsAfter_of_copy hfault
  refine ⟨_, copy_eq_iff_endsAfter.mpr hends, ?_, hends.ne_nil, fun hpos => ?_⟩
  · exact (gives_memory hsize).copy trivial hfault
  · exact hends.forall_mem fun s t bs hread => length_read_memory_le hpos hread

/-! ### Everything is copied once -/

/-- **Copying everything.** Of a reader that gives chunks, whatever they are and whatever size it is
asked for, and then nothing, copying writes just these chunks; it asks for the size each time, and
once more than there are chunks. A limit on its reads does not matter as long as it is larger than
their number, so that copying ends, and of a source whose copying does not fail nothing else is ever
written. Of data in memory, all is written in pieces that are not empty and not longer than a
positive size, if the size is not zero and fits into a word of 64 bits; a size that does not fit is
refused, and nothing is written. -/
theorem copy_everything {ε σ : Type} :
    (∀ (read : Int → σ → Except ε (Bytes × σ)) (size : Int) (s : σ) (chunks : List Bytes),
      EndsAfter read size s chunks → ∀ limit, chunks.length < limit →
        (limited read).copy size (s, limit) =
          ⟨chunks, List.replicate (chunks.length + 1) size, none⟩) ∧
    (∀ (src : Source ε σ) (size : Int) (s : σ) (chunks : List Bytes),
      src.copy size s = ⟨chunks, List.replicate (chunks.length + 1) size, none⟩ ↔
        EndsAfter src.read size s chunks) ∧
    (∀ (data : Bytes) (size : Int),
      (size ≠ 0 → -0x8000000000000000 ≤ size → size < 0x8000000000000000 →
        ∃ writes : List Bytes, copyMemory (.number size) data =
            .ok ⟨writes, List.replicate (writes.length + 1) size, none⟩ ∧
          writes.flatten = data ∧ (∀ bs ∈ writes, bs ≠ []) ∧
          (0 < size → ∀ bs ∈ writes, (bs.length : Int) ≤ size)) ∧
      (size < -0x8000000000000000 ∨ 0x8000000000000000 ≤ size →
        copyMemory (.number size) data = .error .beyondWords)) := by
  refine ⟨fun read size s chunks h limit hlimit => ?_,
    fun src size s chunks => copy_eq_iff_endsAfter, fun data size => ⟨fun hsize hlow hhigh => ?_,
      fun hbeyond => ?_⟩⟩
  · exact copy_eq_iff_endsAfter.mpr (h.limited hlimit)
  · obtain ⟨writes, hcopy, hwrites⟩ := exists_copy_memory hsize data
    refine ⟨writes, ?_, hwrites⟩
    rw [copyMemory, readSize, if_neg (by omega), ← hcopy]
    rfl
  · rw [copyMemory, readSize, if_pos hbeyond]
    rfl

theorem copy_everything_abc :
    (limited fun n s => .ok (if n = 2 ∧ s < 2 then [s, s, s] else [], s + 1) :
        Source Empty (UInt8 × Nat)).copy 2 (0, 3) = ⟨[[0, 0, 0], [1, 1, 1]], [2, 2, 2], none⟩ ∧
      ∃ writes : List Bytes, copyMemory (.number 2) [97, 98, 99] =
          .ok ⟨writes, List.replicate (writes.length + 1) 2, none⟩ ∧
        writes.flatten = [97, 98, 99] ∧ ∀ bs ∈ writes, (bs.length : Int) ≤ 2 := by
  obtain ⟨hreader, -, hmemory⟩ := @copy_everything Empty UInt8
  refine ⟨hreader _ 2 0 [[0, 0, 0], [1, 1, 1]] ?_ 3 (by decide), ?_⟩
  · exact .later rfl (by decide) (.later rfl (by decide) (.now rfl))
  · obtain ⟨writes, hcopy, hwrites, -, hlength⟩ :=
      (hmemory [97, 98, 99] 2).1 (by decide) (by decide) (by decide)
    exact ⟨writes, hcopy, hwrites, hlength (by decide)⟩

/-- A size that is not zero need not be one of reads from memory: it may not fit into a word. -/
theorem copyMemory_beyond_words : ¬∀ (data : Bytes) (size : Int), size ≠ 0 →
    ∃ c, copyMemory (.number size) data = .ok c ∧ c.writes.flatten = data := by
  intro h
  obtain ⟨c, hc, -⟩ := h [97, 98, 99] 0x8000000000000000 (by decide)
  have hrefused : copyMemory (.number 0x8000000000000000) [97, 98, 99] = .error .beyondWords := rfl
  cases hrefused.symm.trans hc

end EntryRef.Source
