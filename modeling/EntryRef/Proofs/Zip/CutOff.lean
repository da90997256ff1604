import EntryRef.Proofs.Zip.Archive
import EntryRef.Proofs.Zip.Copying

/-!
# Members that are cut off

A member whose compressed data should go on behind the end of the file can be read at once if
enough of them are there (`Reader.Safe.readAll`). Copying it some bytes at a time fails if it has
more bytes than that (`Reader.copy_of_cut_off`), so that `Reader.Tame` does not ask for too much.

There are such archives: a few bytes are the compressed form of a long run of one byte
(`Deflate.inflateFrom_zeros`), of which the file of `cutOffArchive` is made.
-/

namespace EntryRef

namespace Zip.Reader

variable {r s : Reader} {n : Nat} {data : Bytes}

/-! ### Reading at once -/

theorem Safe.mono {m : Nat} (hr : r.Safe n) (hle : n ≤ m) : r.Safe m := by
  refine ⟨hr.sound, hr.undamaged, hr.supplied.imp_right (Or.imp_right fun h => ?_)⟩
  refine ⟨h.file_ne_nil, fun hway => ?_, h.enough⟩
  obtain ⟨hn, hleft⟩ := h.asked hway
  exact ⟨by omega, by omega⟩

/-- Reading all does not fail from a safe state. The induction is on the steps. -/
theorem Safe.drain (hr : r.Safe mostRead) (fuel : Nat) (found : List Bytes) :
    ∃ p, Reader.drain fuel r found = .ok p := by
  induction fuel generalizing r found with
  | zero => exact ⟨_, rfl⟩
  | succ fuel ih =>
    rw [Reader.drain]
    split
    · exact ⟨_, rfl⟩
    next hended =>
    rw [Bool.not_eq_true] at hended
    split
    · next e hstep => exact absurd hstep (hr.step_ne_error hended (by decide))
    · next data t hstep =>
      exact ih ((hr.step hended (by decide) hstep).mono (Nat.sub_le _ _)) _

/-- Where it is safe to read as much as can be asked for, all can be read at once. -/
theorem Safe.readAll (hr : r.Safe mostRead) : ∃ s, r.readAll = .ok (r.upcoming, s) := by
  obtain ⟨⟨out, s⟩, hdrain⟩ := (hr.with_pending []).drain r.stepsLeft [r.pending]
  have hread : r.readAll = .ok (out.reverse.flatten, s) := by
    rw [Reader.readAll, hdrain]
  obtain ⟨hdata, -⟩ := readAll_eq_ok hr.sound.proper hread
  exact ⟨s, by rw [hread, hdata]⟩

/-! ### Copying -/

/-- The file has been read to its end, though there are compressed bytes to come, of which the next
request needs some. -/
structure CutOff (n : Nat) (r : Reader) : Prop where
  ended_eq : r.ended = false
  pending_eq : r.pending = []
  file_eq : r.file = []
  compressedLeft_ne : r.compressedLeft ≠ 0
  pulled_lt : r.pulled < n
  way_eq : r.way = .deflated

private theorem damaged_iff_of_form {flow : Deflate.Flow} (h : r.form = .deflated flow) :
    r.Damaged ↔ flow.ending.IsDamage := by
  simp only [Damaged, h]

private theorem form_of_deflated (h : r.way = .deflated) : ∃ flow, r.form = .deflated flow := by
  unfold way at h
  split at h
  · cases h
  · next flow hform => exact ⟨flow, hform⟩
  · cases h

/-- The first step meets the end of the file. -/
private theorem CutOff.read_eq (hr : r.CutOff n) : r.read n = .error .endOfData := by
  have hn : n ≠ 0 := Nat.ne_of_gt (Nat.zero_lt_of_lt hr.pulled_lt)
  obtain ⟨flow, hform⟩ := form_of_deflated hr.way_eq
  obtain ⟨fuel, hfuel⟩ := Nat.exists_eq_succ_of_ne_zero (Nat.ne_of_gt r.stepsLeft_pos)
  have hpending : { r with pending := [] } = r := by
    rw [← hr.pending_eq]
  have hpull : ∀ k, r.pull k = .error .endOfData := by
    intro k
    simp only [pull, if_neg hr.compressedLeft_ne, hr.file_eq, List.take_nil, List.isEmpty_nil,
      if_true]
  have hgather : r.gather n = .error .endOfData := by
    have hwaiting : r.pulled - r.used < n := Nat.lt_of_le_of_lt (Nat.sub_le _ _) hr.pulled_lt
    simp only [gather, if_pos hwaiting, hpull, Except.map]
  have hstep : r.step n = .error .endOfData := by
    rw [step, if_neg (by simp [hr.ended_eq, hn])]
    simp only [raw, hform, compressed, hgather]
  rw [Reader.read, if_neg (by simp [hr.pending_eq]), hpending, hfuel, fill,
    if_neg (by simp [hr.ended_eq, hr.pending_eq, hn]), hr.pending_eq, List.length_nil, Nat.sub_zero,
    hstep]

/-- Where the file is shorter than what is asked for, all of it is read. -/
private theorem pull_of_cut_off (hcut : ¬r.Complete) (hlength : r.file.length ≤ n)
    (h : r.pull n = .ok (data, s)) : s.file = [] ∧ s.pulled = r.pulled + r.file.length ∧
      s.compressedLeft ≠ 0 ∧ s.ended = r.ended := by
  have hcompressed : r.file.length < r.compressedLeft := Nat.lt_of_not_le hcut
  unfold pull at h
  rw [if_neg (by omega)] at h
  have hcount : r.file.length ≤ min (max n leastRead) r.compressedLeft := by omega
  simp only [List.take_of_length_le hcount, List.drop_of_length_le hcount] at h
  split at h
  · cases h
  cases h
  exact ⟨rfl, rfl, Nat.sub_ne_zero_of_lt hcompressed, rfl⟩

/-- The first step of a member that is cut off reads the file to its end, and gives as much as has
been asked for if there is more. -/
theorem cutOff_of_step (hr : r.Fresh) {flow : Deflate.Flow} (hform : r.form = .deflated flow)
    (hcut : ¬r.Complete) (hleast : leastRead ≤ n) (hlength : r.file.length < n)
    (hmuch : n < r.content.length) (h : r.step n = .ok (data, s)) :
    data.length = n ∧ s.CutOff n := by
  have hn : n ≠ 0 := Nat.ne_of_gt (Nat.zero_lt_of_lt hlength)
  have hcontent : r.content = flow.bytes.take r.left := by
    rw [content, if_neg (by simp [hr.ended_eq])]
    simp only [ahead, hform]
  have hfits := hr.started
  simp only [Started, hform] at hfits
  rw [hcontent, List.length_take, Nat.lt_min] at hmuch
  obtain ⟨got, t, hraw, haccount⟩ := step_eq_ok hr.ended_eq hn h
  simp only [raw, hform] at hraw
  obtain ⟨q, p, hgather, hrun, hdecompressed⟩ := compressed_eq_ok hraw
  obtain ⟨pulled, hpull⟩ := hr.pull_of_gather hn hgather
  obtain ⟨hqfile, hqpulled, hqleft, hqended⟩ := pull_of_cut_off hcut (Nat.le_of_lt hlength) hpull
  obtain ⟨hqpending, hqsize⟩ := pull_alike hpull
  have hcompressed : r.file.length < r.compressedLeft := Nat.lt_of_not_le hcut
  have htotal : r.available ≤ q.pulled := by
    unfold available
    omega
  -- the run would have to take more than there is room for to take everything
  rw [Nat.max_eq_left hleast] at hrun
  obtain ⟨hfull, hgoes⟩ := Deflate.Flow.full_of_run hfits htotal
    (Nat.pos_of_ne_zero hn) hmuch.2 hrun
  obtain ⟨rfl, rfl⟩ : got = p.output ∧ t = { q with used := p.used, form := .deflated p.rest } := by
    rcases decompressed_cases hdecompressed with ⟨hfinished, -⟩ | ⟨-, hnone, -⟩ | ⟨-, -, hgot, ht⟩
    · exact absurd (hgoes.symm.trans hfinished) (by decide)
    · exact absurd hnone hqleft
    · exact ⟨hgot, ht⟩
  obtain ⟨hdata, rfl, -⟩ := account_eq_ok haccount
  have hleft : n < q.left := hqsize ▸ hmuch.1
  have hsize : data.length = n := by
    rw [hdata, List.length_take, hfull]
    exact Nat.min_eq_right (Nat.le_of_lt hleft)
  have hmore : q.left - data.length ≠ 0 := by omega
  refine ⟨hsize, ?_, hqpending.trans hr.pending_eq, hqfile, hqleft, ?_, rfl⟩
  · simp only [hqended, hr.ended_eq, Bool.false_or, hmore, decide_false]
  · rw [hr.pulled_eq, Nat.zero_add] at hqpulled
    exact hqpulled ▸ hlength

/-- The first read gives as much as is asked for. -/
theorem read_of_cut_off (hr : r.Fresh) (hsafe : r.Safe mostRead) {flow : Deflate.Flow}
    (hform : r.form = .deflated flow) (hcut : ¬r.Complete) (hleast : leastRead ≤ n)
    (hlength : r.file.length < n) (hmuch : n < r.content.length) :
    ∃ s, r.read n = .ok (r.content.take n, s) ∧ s.CutOff n := by
  have hn : n ≠ 0 := Nat.ne_of_gt (Nat.zero_lt_of_lt hlength)
  have hfile : r.file ≠ [] := by
    rcases hsafe.supplied with h | hcomplete | hsupplied
    · exact absurd (hr.ended_eq.symm.trans h) (by decide)
    · exact absurd hcomplete hcut
    · exact hsupplied.file_ne_nil
  cases hstep : r.step n with
  | error e =>
    rcases cause_of_step hr.started hr.ended_eq hn hstep with ⟨-, hnil, -⟩ | hdamage | hcheck
    · exact absurd hnil hfile
    · exact absurd hdamage.2 hsafe.undamaged
    · exact absurd hsafe.sound.checks (hcheck.2 hsafe.sound.proper.even)
  | ok p =>
    obtain ⟨data, s⟩ := p
    obtain ⟨hdata, hs⟩ := cutOff_of_step hr hform hcut hleast hlength hmuch hstep
    obtain ⟨fuel, hfuel⟩ := Nat.exists_eq_succ_of_ne_zero (Nat.ne_of_gt r.stepsLeft_pos)
    have hfill : fill fuel 0 s [data, []] = .ok ([data, []], s) := by
      cases fuel with
      | zero => rfl
      | succ fuel => rfl
    have hread : r.read n = .ok (data, s) := by
      rw [Reader.read, if_neg (by simp [hr.pending_eq]), hr.without_pending, hfuel, fill,
        if_neg (by simp [hr.ended_eq, hr.pending_eq, hn]), hr.pending_eq, List.length_nil,
        Nat.sub_zero, hstep]
      simp only [hdata, Nat.lt_irrefl, if_false, Nat.sub_self, hfill]
      simp
    obtain ⟨hfirst, -⟩ := read_eq_ok hsafe.sound.proper hread
    rw [upcoming_eq_content hr.pending_eq] at hfirst
    exact ⟨s, hfirst ▸ hread, hs⟩

/-- **Copying fails for a member that is cut off**, if it is compressed and has more than `n` bytes:
`Tame` does not ask for too much. -/
theorem copy_of_cut_off (hr : r.Fresh) (hsafe : r.Safe mostRead) {flow : Deflate.Flow}
    (hform : r.form = .deflated flow) (hcut : ¬r.Complete) (hleast : leastRead ≤ n)
    (hlength : r.file.length < n) (hmuch : n < r.content.length) :
    (source.copy n r).writes.flatten = r.content.take n ∧
      (source.copy n r).fault = some (Fault.trouble .endOfData) := by
  obtain ⟨s, hread, hs⟩ := read_of_cut_off hr hsafe hform hcut hleast hlength hmuch
  have hne : r.content.take n ≠ [] := by
    rw [ne_eq, List.take_eq_nil_iff, ← List.length_eq_zero_iff]
    omega
  have hfirst : source.read n r = .ok (r.content.take n, s) := by
    rw [read_source, hread]
    rfl
  have hsecond : source.read n s = .error (Fault.trouble .endOfData) := by
    rw [read_source, hs.read_eq]
    rfl
  rw [Source.copy_of_second_fails hne hfirst hsecond]
  exact ⟨List.flatten_singleton, rfl⟩

end Zip.Reader

/-- Copying the bytes of a member out of an archive fails in the same way. -/
theorem Zip.Archive.copy_of_cut_off {table : FlagTable} {a : Archive} {m : Member} {r : Reader}
    {data : Bytes} (hopen : a.openMember m = .ok r) (hsafe : r.Safe Reader.mostRead)
    {flow : Deflate.Flow} (hform : r.form = .deflated flow) (hcut : ¬r.Complete)
    (hlength : r.file.length < copySize.toNat) (hdata : r.content = data)
    (hmuch : copySize.toNat < data.length) :
    ∃ stream, (a.entry m : Entry table).stream = .ok stream ∧
      (stream copySize).writes.flatten = data.take copySize.toNat ∧
      (stream copySize).fault = some (.trouble (Fault.trouble .endOfData)) := by
  subst hdata
  obtain ⟨hwrites, hfault⟩ := Reader.copy_of_cut_off (n := copySize.toNat)
    (fresh_of_openMember (openMember_file hopen)).1 hsafe hform hcut (by decide) hlength hmuch
  have hsize : (copySize.toNat : Int) = copySize := rfl
  rw [hsize] at hwrites hfault
  refine ⟨_, stream_of_openMember hopen, hwrites, ?_⟩
  simp only [Copied.mapFault, hfault, Option.map_some]

/-! ### Runs of one byte -/

namespace Deflate

variable {x : UInt8} {out : Array Ready} {literals distances : Code} {last : Bool}

/-- The byte that has been decompressed last. -/
def lastByte? (out : Array Ready) : Option UInt8 := (out.toList.map Ready.byte).getLast?

/-- A copy from the least distance repeats the last byte. -/
theorem bytes_copyBack_one (needs length : Nat) (hlast : lastByte? out = some x) :
    (copyBack 1 needs length out).toList.map Ready.byte =
      out.toList.map Ready.byte ++ List.replicate length x := by
  induction length generalizing out with
  | zero => exact (List.append_nil _).symm
  | succ length ih =>
    have hbyte : (out[out.size - 1]?.map (·.byte)).getD 0 = x := by
      rw [lastByte?, List.getLast?_map, Array.getLast?_toList, Array.back?] at hlast
      rw [hlast]
      rfl
    have hpush : (out.push ⟨x, needs, needs⟩).toList.map Ready.byte =
        out.toList.map Ready.byte ++ [x] := by
      rw [Array.toList_push, List.map_append]
      rfl
    have hnext : lastByte? (out.push ⟨x, needs, needs⟩) = some x := by
      rw [lastByte?, hpush, List.getLast?_concat]
    rw [copyBack, hbyte, ih hnext, hpush, List.append_assoc]
    rfl

/-- The first words of the codes are one bit that is not set, and stand for the longest length and
the least distance. -/
structure Repeats (literals distances : Code) : Prop where
  literal : ∃ counts, literals.counts = 1 :: counts ∧ literals.symbols[0]? = some 285
  distance : ∃ counts, distances.counts = 1 :: counts ∧ distances.symbols[0]? = some 0

/-- A code that has a word of one bit reads it from a zero bit. -/
private theorem symbol_of_bit? {c : Code} {counts : List Nat} {symbol : Nat} {b b' : Bits}
    (hcounts : c.counts = 1 :: counts) (hsymbol : c.symbols[0]? = some symbol)
    (hb : b.bit? = some (0, b')) : Reading.symbol c b = .ok (some symbol, b') := by
  simp [Reading.symbol, Reading.ofOption, Code.decode?, Code.decodeFrom, hcounts, hsymbol, hb]

/-- Two bits that are not set are the longest copy from the least distance. -/
theorem readStep_of_repeats (h : Repeats literals distances) {b b' c : Bits}
    (hb : b.bit? = some (0, b')) (hb' : b'.bit? = some (0, c)) :
    readStep (.coded literals distances last) b =
      .ok ((.copy 258 1, .coded literals distances last), c) := by
  obtain ⟨_, hcounts, hsymbol⟩ := h.literal
  obtain ⟨_, hcounts', hsymbol'⟩ := h.distance
  have hliteral := symbol_of_bit? hcounts hsymbol hb
  have hdistance := symbol_of_bit? hcounts' hsymbol' hb'
  have hpure : ∀ {α : Type} (x : α) (b : Bits), (pure x : Reading α) b = .ok (x, b) :=
    fun _ _ => rfl
  simp [readStep, readCoded, readRow, lengthRows, distanceRows, Reading.number, Reading.ofOption,
    Bits.number?, bind, StateT.bind, Except.bind, hpure, hliteral, hdistance]

/-- Two zero bits repeat the last byte as often as can be. -/
private theorem inflateFrom_of_repeats (h : Repeats literals distances) (last : Bool)
    {b b' c : Bits}
    (hb : b.bit? = some (0, b')) (hb' : b'.bit? = some (0, c)) (fuel : Nat)
    (hlast : lastByte? out = some x) : ∃ more, lastByte? more = some x ∧
      more.toList.map Ready.byte = out.toList.map Ready.byte ++ List.replicate 258 x ∧
      inflateFrom (fuel + 1) (.coded literals distances last) b out =
        inflateFrom fuel (.coded literals distances last) c more := by
  have hbytes := bytes_copyBack_one c.pulled 258 hlast
  refine ⟨copyBack 1 c.pulled 258 out, ?_, hbytes, ?_⟩
  · rw [lastByte?, hbytes, List.getLast?_append, List.getLast?_replicate]
    rfl
  · have hsize : ¬out.size < 1 := by
      intro hlt
      rw [Array.eq_empty_of_size_eq_zero (Nat.lt_one_iff.mp hlt)] at hlast
      cases hlast
    rw [inflateFrom, readStep_of_repeats h hb hb']
    simp only [hsize, if_false]

/-- **Zeros.** A byte of zero is four copies, each of which repeats the last byte 258 times. -/
theorem inflateFrom_zeros (h : Repeats literals distances) (last : Bool) (count fuel : Nat)
    (rest : Bytes) (start : Nat) (hlast : lastByte? out = some x) : ∃ more,
      more.toList.map Ready.byte = out.toList.map Ready.byte ++ List.replicate (1032 * count) x ∧
      inflateFrom (fuel + 4 * count) (.coded literals distances last)
          ⟨List.replicate count 0 ++ rest, 0, start⟩ out =
        inflateFrom fuel (.coded literals distances last) ⟨rest, 0, start + count⟩ more := by
  induction count generalizing start out with
  | zero => exact ⟨out, (List.append_nil _).symm, rfl⟩
  | succ count ih =>
    have hbit : ∀ used, used < 7 → Bits.bit? ⟨0 :: (List.replicate count 0 ++ rest), used, start⟩ =
        some (0, ⟨0 :: (List.replicate count 0 ++ rest), used + 1, start⟩) := by
      intro used hused
      simp [Bits.bit?, hused]
    have hbit' : Bits.bit? ⟨0 :: (List.replicate count 0 ++ rest), 7, start⟩ =
        some (0, ⟨List.replicate count 0 ++ rest, 0, start + 1⟩) := by
      simp [Bits.bit?]
    have hrest : List.replicate (count + 1) 0 ++ rest =
        (0 : UInt8) :: (List.replicate count 0 ++ rest) := rfl
    obtain ⟨out₁, hlast₁, hbytes₁, h₁⟩ := inflateFrom_of_repeats h last
      (hbit 0 (by decide)) (hbit 1 (by decide)) (fuel + 4 * count + 3) hlast
    obtain ⟨out₂, hlast₂, hbytes₂, h₂⟩ := inflateFrom_of_repeats h last
      (hbit 2 (by decide)) (hbit 3 (by decide)) (fuel + 4 * count + 2) hlast₁
    obtain ⟨out₃, hlast₃, hbytes₃, h₃⟩ := inflateFrom_of_repeats h last
      (hbit 4 (by decide)) (hbit 5 (by decide)) (fuel + 4 * count + 1) hlast₂
    obtain ⟨out₄, hlast₄, hbytes₄, h₄⟩ := inflateFrom_of_repeats h last
      (hbit 6 (by decide)) hbit' (fuel + 4 * count) hlast₃
    obtain ⟨more, hbytes, hmore⟩ := ih (start + 1) hlast₄
    have hcount : 1032 * (count + 1) = 258 + 258 + 258 + 258 + 1032 * count := by omega
    refine ⟨more, ?_, ?_⟩
    · rw [hbytes, hbytes₄, hbytes₃, hbytes₂, hbytes₁, hcount]
      simp only [List.append_assoc, List.replicate_append_replicate]
    · have hstart : start + (count + 1) = start + 1 + count := by omega
      have hfuel : fuel + 4 * (count + 1) = fuel + 4 * count + 3 + 1 := by omega
      rw [hrest, hfuel, h₁, h₂, h₃, h₄, hmore, hstart]

/-- The bytes that so many steps give, if none of them is a copy, a byte of a stored block, or an
ending; and where they lead to. -/
def literals? : Nat → Mode → Bits → Option (Bytes × Mode × Bits)
  | 0, mode, b => some ([], mode, b)
  | count + 1, mode, b =>
    match readStep mode b with
    | .ok ((.nothing, mode), b) => literals? count mode b
    | .ok ((.literal x, mode), b) => (literals? count mode b).map fun r => (x :: r.1, r.2)
    | _ => none

/-- Where so many literals are read, inflating gives them, and goes on behind them. -/
private theorem inflateFrom_of_literals? {count : Nat} {mode mode' : Mode} {b b' : Bits}
    {xs : Bytes}
    (h : literals? count mode b = some (xs, mode', b')) (fuel : Nat) (out : Array Ready) :
    ∃ more, more.toList.map Ready.byte = out.toList.map Ready.byte ++ xs ∧
      inflateFrom (fuel + count) mode b out = inflateFrom fuel mode' b' more := by
  induction count generalizing mode b xs out with
  | zero =>
    cases h
    exact ⟨out, (List.append_nil _).symm, rfl⟩
  | succ count ih =>
    rw [literals?] at h
    split at h
    · next hstep =>
      obtain ⟨more, hbytes, hmore⟩ := ih h out
      refine ⟨more, hbytes, ?_⟩
      rw [← Nat.add_assoc, inflateFrom, hstep]
      exact hmore
    · next x mode'' c hstep =>
      obtain ⟨⟨ys, mode₁, b₁⟩, hrest, heq⟩ := Option.map_eq_some_iff.mp h
      cases heq
      obtain ⟨more, hbytes, hmore⟩ := ih hrest (out.push ⟨x, c.pulled, c.pulled⟩)
      refine ⟨more, ?_, ?_⟩
      · rw [hbytes, Array.toList_push, List.map_append, List.append_assoc]
        rfl
      · rw [← Nat.add_assoc, inflateFrom, hstep]
        exact hmore
    · cases h

private theorem inflateFrom_ended (fuel : Nat) (b : Bits) (out : Array Ready) :
    inflateFrom (fuel + 1) .ended b out = ⟨out.toList, .finished b.pulled⟩ := rfl

/-- Data that give some bytes of which `x` is the last one, many more of it, and then an end. -/
theorem inflate_of_zeros {bytes xs ys rest : Bytes} {b : Bits} {first count next start fuel : Nat}
    (h : Repeats literals distances)
    (hfirst : literals? first .header (.ofBytes bytes) =
      some (xs, .coded literals distances last, ⟨List.replicate count 0 ++ rest, 0, start⟩))
    (hlast : xs.getLast? = some x)
    (hnext : literals? next (.coded literals distances last) ⟨rest, 0, start + count⟩ =
      some (ys, .ended, b))
    (hfuel : 8 * bytes.length + 2 = fuel + 1 + next + 4 * count + first) :
    (inflate bytes).bytes = xs ++ List.replicate (1032 * count) x ++ ys ∧
      (inflate bytes).ending = .finished b.pulled := by
  obtain ⟨out, hout, h₁⟩ :=
    inflateFrom_of_literals? hfirst (fuel + 1 + next + 4 * count) #[]
  have hout : out.toList.map Ready.byte = xs := hout
  obtain ⟨out', hout', h₂⟩ := inflateFrom_zeros h last count (fuel + 1 + next) rest start
    (by rw [lastByte?, hout, hlast])
  obtain ⟨out'', hout'', h₃⟩ := inflateFrom_of_literals? hnext (fuel + 1) out'
  have hinflate : inflate bytes = ⟨out''.toList, .finished b.pulled⟩ := by
    rw [inflate, hfuel, h₁, h₂, h₃, inflateFrom_ended]
  rw [hinflate]
  exact ⟨by rw [Flow.bytes, hout'', hout', hout], rfl⟩

end Deflate

/-- Zeros keep a running remainder of zero. -/
theorem Crc32.foldl_push_zeros (count : Nat) :
    (List.replicate count (0 : UInt8)).foldl push 0 = 0 := by
  induction count with
  | zero => rfl
  | succ count ih =>
    have hpush : push 0 0 = 0 := by decide +kernel
    rw [List.replicate_succ, List.foldl_cons, hpush, ih]

/-! ### An archive with a member that is cut off -/

namespace Deflate

deriving instance DecidableEq for Bits, Code, Mode

/-- The codes of a member, in which one bit is the longest length. -/
def cutOffLiterals : Code := ⟨[1, 1, 2], #[285, 0, 255, 256]⟩

/-- The code of the least distance. -/
def cutOffDistances : Code := ⟨[1], #[0]⟩

/-- Bytes that give these codes and eight bytes of data. -/
def cutOffStart : Bytes :=
  [0xed, 0xc0, 1, 1, 0, 0, 0, 0x82, 0x20, 0xff, 0x9f, 0xae, 0x23, 0xb0, 0x6d, 0x55]

/-- These bytes, 64 zeros, and a byte that ends the data. -/
def cutOffPacked : Bytes := cutOffStart ++ List.replicate 64 0 ++ [7]

/-- The data: four times the greatest byte, and then zeros. -/
def cutOffData : Bytes :=
  [0xff, 0xff, 0xff, 0xff, 0, 0, 0, 0] ++ List.replicate (1032 * 64) 0

private theorem repeats_cutOff : Repeats cutOffLiterals cutOffDistances :=
  ⟨⟨[1, 2], rfl, rfl⟩, ⟨[], rfl, rfl⟩⟩

private theorem check_cutOffData : Crc32.update 0 cutOffData = 0xffffffff := by
  have hstart : [0xff, 0xff, 0xff, 0xff, 0, 0, 0, 0].foldl Crc32.push (0 ^^^ 0xffffffff) = 0 := by
    decide +kernel
  rw [Crc32.update, cutOffData, List.foldl_append, hstart, Crc32.foldl_push_zeros]
  decide

end Deflate

namespace Zip

open Deflate (cutOffPacked cutOffData)

/-- The name and the numbers of the member in its header and in the directory. -/
def cutOffFields : Bytes :=
  [0, 0, 8, 0, 0, 0, 0, 0, 0xff, 0xff, 0xff, 0xff, 0xe8, 3, 0, 0, 8, 2, 1, 0, 3, 0]

/-- What stands behind the compressed data: a directory of two members, of which the first one is
said to start behind the end of the file. -/
def cutOffDirectory : Bytes :=
  [0x50, 0x4b, 1, 2, 20, 0, 20, 0] ++ List.replicate 20 0 ++ [1, 0] ++ List.replicate 14 0 ++
    [1, 0, 0x63] ++
    [0x50, 0x4b, 1, 2, 20, 0, 20, 0] ++ cutOffFields ++ List.replicate 16 0 ++ [0x61, 0x2e, 0x62] ++
    [0x50, 0x4b, 5, 6, 0, 0, 0, 0, 2, 0, 2, 0, 0x60, 0, 0, 0, 0x72, 0, 0, 0, 0, 0]

/-- The file of an archive with a member that is said to have 1000 compressed bytes and has less. -/
def cutOffFile : Bytes :=
  [0x50, 0x4b, 3, 4, 20, 0] ++ cutOffFields ++ [0, 0, 0x61, 0x2e, 0x62] ++ cutOffPacked ++
    cutOffDirectory

/-- The member. -/
def cutOffMember : Member := ⟨"a.b", 0, deflateMethod, 0xffffffff, 1000, 66056, 0, 0, 0x10000⟩

/-- The archive at the path `/l.jar`, where it is the only file. -/
def cutOffArchive : Archive :=
  ⟨"/l.jar".toList, cutOffFile, [⟨"c", 0, 0, 0, 0, 0, 0, 0x10000, 114⟩, cutOffMember], false, .none⟩

/-- The only file. -/
def cutOffFiles : Files := [("/l.jar".toList, .ok cutOffFile)]

private theorem map_snd_stops (stop : Int) (ms : List (Member × Nat)) :
    (stops stop ms).map Prod.snd = ms.map Prod.snd := by
  induction ms generalizing stop with
  | nil => rfl
  | cons m ms ih => rw [stops, List.map_cons, List.map_cons, ih]

/-- Members that the directory names in the reverse order of their places each stop where the one
before starts. -/
theorem withStops_of_descending (directory : Int) {ms : List Member}
    (h : ms.Pairwise fun a b => b.start ≤ a.start) :
    withStops directory ms = (stops directory ms.zipIdx).map Prod.fst := by
  have hlater : ms.zipIdx.Pairwise fun a b => decide (b.1.start ≤ a.1.start) = true := by
    simp only [decide_eq_true_eq]
    rw [← List.zipIdx_map_fst 0 ms, List.pairwise_map] at h
    exact h
  have hindices : (stops directory ms.zipIdx).Pairwise fun a b => decide (a.2 ≤ b.2) = true := by
    simp only [decide_eq_true_eq]
    have hrange : ((stops directory ms.zipIdx).map Prod.snd).Pairwise (· ≤ ·) := by
      rw [map_snd_stops, List.zipIdx_map_snd]
      exact List.pairwise_le_range'
    rwa [List.pairwise_map] at hrange
  rw [withStops, List.mergeSort_of_pairwise hlater, List.mergeSort_of_pairwise hindices]

/-- The directory is read, though its members are not in the order of their places. -/
private theorem readDirectory_cutOffFile :
    readDirectory cutOffFile = .ok cutOffArchive.members := by
  have hplace : findEnd? cutOffFile = some 210 := by decide +kernel
  have hend : readEnd cutOffFile 210 = .ok ⟨210, 96, 114⟩ := rfl
  have hmembers : readMembers 0 (slice 114 96 cutOffFile) #[] =
      .ok #[⟨"c", 0, 0, 0, 0, 0, 0, 0x10000, 0x10000⟩, { cutOffMember with stop := 0 }] := by
    decide +kernel
  have hstops : withStops 114
      [⟨"c", 0, 0, 0, 0, 0, 0, 0x10000, 0x10000⟩, { cutOffMember with stop := 0 }] =
      cutOffArchive.members := by
    rw [withStops_of_descending 114 (by decide)]
    rfl
  have hstart : (210 : Int) - (96 : Nat) = 114 := rfl
  have hbase : (114 : Int) - (114 : Nat) = 0 := rfl
  have hnat : (114 : Int).toNat = 114 := rfl
  rw [readDirectory, hplace]
  simp only [hend, bind, Except.bind, hstart, hbase, hnat, hmembers, hstops]
  rfl

/-- The archive is opened. -/
theorem openArchive_cutOffFiles {table : FlagTable} :
    (openArchive .none cutOffFiles "/l.jar".toList : Except (Failure table) Archive) =
      .ok cutOffArchive := by
  have hfile : readFile cutOffFiles "/l.jar".toList = .ok cutOffFile := rfl
  simp only [openArchive, hfile, Archive.ofFile, readDirectory_cutOffFile]
  rfl

/-- The file is shorter behind the member's header than the member's data are said to be. -/
theorem length_cutOffRest : (cutOffPacked ++ cutOffDirectory).length = 199 := by
  rfl

/-- The reader of the member. -/
def cutOffReader : Reader where
  name := cutOffMember.name
  expected := cutOffMember.crc
  file := cutOffPacked ++ cutOffDirectory
  compressedLeft := cutOffMember.compressedSize
  pulled := 0
  used := 0
  form := .deflated (Deflate.inflate (cutOffPacked ++ cutOffDirectory))
  left := cutOffMember.size
  crc := 0
  ended := false
  pending := []

private theorem openMember_cutOff : cutOffArchive.openMember cutOffMember = .ok cutOffReader := by
  have hplace : checkHeader cutOffFile cutOffMember = .ok 33 := rfl
  have hdata : cutOffFile.drop 33 = cutOffPacked ++ cutOffDirectory := rfl
  have hall : (cutOffPacked ++ cutOffDirectory).take cutOffMember.compressedSize =
      cutOffPacked ++ cutOffDirectory := by
    refine List.take_of_length_le ?_
    rw [length_cutOffRest]
    decide
  change openMember .none cutOffFile cutOffMember = _
  rw [openMember, hplace]
  simp only [bind, Except.bind, hdata, hall]
  rfl

/-- The block starts with its header and eight literals. -/
private theorem literals?_cutOffStart :
    Deflate.literals? 9 .header (.ofBytes (cutOffPacked ++ cutOffDirectory)) =
      some ([0xff, 0xff, 0xff, 0xff, 0, 0, 0, 0],
        .coded Deflate.cutOffLiterals Deflate.cutOffDistances true,
        ⟨List.replicate 64 0 ++ 7 :: cutOffDirectory, 0, 16⟩) := by
  decide +kernel

private theorem literals?_cutOffStop : Deflate.literals? 1
    (.coded Deflate.cutOffLiterals Deflate.cutOffDistances true) ⟨7 :: cutOffDirectory, 0, 80⟩ =
      some ([], .ended, ⟨7 :: cutOffDirectory, 3, 80⟩) := rfl

/-- The compressed data are finished within the file, and give the data. -/
theorem inflate_cutOff : (Deflate.inflate (cutOffPacked ++ cutOffDirectory)).bytes = cutOffData ∧
    (Deflate.inflate (cutOffPacked ++ cutOffDirectory)).ending = .finished 81 := by
  have hfuel : 8 * (cutOffPacked ++ cutOffDirectory).length + 2 = 1327 + 1 + 1 + 4 * 64 + 9 := by
    rw [length_cutOffRest]
  obtain ⟨hbytes, hending⟩ := Deflate.inflate_of_zeros Deflate.repeats_cutOff literals?_cutOffStart
    rfl literals?_cutOffStop hfuel
  exact ⟨hbytes.trans (List.append_nil _), hending⟩

/-- The data are longer than what is copied at once. -/
theorem length_cutOffData : cutOffData.length = 66056 := by
  rw [cutOffData, List.length_append, List.length_replicate]
  rfl

private theorem fresh_cutOffReader : cutOffReader.Fresh :=
  (fresh_of_openMember (Archive.openMember_file openMember_cutOff)).1

private theorem content_cutOffReader : cutOffReader.content = cutOffData := by
  have hahead : cutOffReader.ahead = cutOffData := inflate_cutOff.1
  rw [Reader.content, if_neg (by decide), hahead, List.take_of_length_le]
  rw [length_cutOffData]
  exact Nat.le_refl _

/-- The file does not have all compressed bytes. -/
private theorem not_complete_cutOffReader : ¬cutOffReader.Complete := by
  change ¬1000 ≤ (cutOffPacked ++ cutOffDirectory).length
  rw [length_cutOffRest]
  decide

private theorem proper_cutOffReader : cutOffReader.Proper :=
  fresh_cutOffReader.proper trivial

private theorem finishes_cutOffReader : cutOffReader.Finishes := ⟨81, inflate_cutOff.2⟩

/-- Reading at once does not fail. -/
private theorem safe_cutOffReader : cutOffReader.Safe Reader.mostRead := by
  have hsupplied : cutOffReader.Supplied Reader.mostRead :=
    ⟨List.cons_ne_nil _ _, fun _ => by decide, .inr finishes_cutOffReader⟩
  refine ⟨⟨proper_cutOffReader, ?_⟩, ?_, .inr (.inr hsupplied)⟩
  · rw [Reader.Checks, Reader.check, content_cutOffReader]
    exact congrArg UInt32.toNat Deflate.check_cutOffData
  · have hform : cutOffReader.form =
        .deflated (Deflate.inflate (cutOffPacked ++ cutOffDirectory)) := rfl
    rw [Reader.damaged_iff_of_form hform, inflate_cutOff.2]
    exact not_false

/-- The member can be read at once. -/
theorem readMember_cutOff : cutOffArchive.readMember cutOffMember = .ok cutOffData := by
  obtain ⟨s, hread⟩ := safe_cutOffReader.readAll
  have hupcoming : cutOffReader.upcoming = cutOffData := by
    rw [Reader.upcoming_eq_content fresh_cutOffReader.pending_eq, content_cutOffReader]
  rw [Archive.readMember, openMember_cutOff]
  simp only [hread, hupcoming]
  rfl

/-- Copying the member fails, behind as many bytes as are asked for at once. -/
theorem copy_cutOff (table : FlagTable) : ∃ stream,
    (cutOffArchive.entry cutOffMember : Entry table).stream = .ok stream ∧
      (stream copySize).writes.flatten = cutOffData.take copySize.toNat ∧
      (stream copySize).fault = some (.trouble (Fault.trouble .endOfData)) := by
  have hlength : cutOffReader.file.length < copySize.toNat := by
    change (cutOffPacked ++ cutOffDirectory).length < copySize.toNat
    rw [length_cutOffRest]
    decide
  refine Archive.copy_of_cut_off openMember_cutOff safe_cutOffReader rfl not_complete_cutOffReader
    hlength content_cutOffReader ?_
  rw [length_cutOffData]
  decide

end Zip

end EntryRef
