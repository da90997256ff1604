import EntryRef.Proofs.Copy
import EntryRef.Proofs.Zip.Pieces
import EntryRef.Zip.Archive

/-!
# Copying members

Whether the data of a member can be read depends on the pieces they are read in. A step that asks
for much sees all of a small member at once, and stops; steps that ask for less read ahead, and may
meet the end of the file, or damage behind the data. `Reader.Safe` are the states from which reading
so many bytes does not fail, and `Reader.Tame` says which of the members that can be read at once
can be copied as well (`Reader.fault_copy_of_readAll`, and `Archive.fault_copy_of_readMember` for an
archive).

What is copied is a prefix of the data of the member in any case, and all of them unless there is a
trouble or something is held back (`Archive.copies_content`).
-/

namespace EntryRef.Zip

namespace Reader

variable {r s t : Reader} {n : Nat} {data : Bytes} {e : Fault}

/-! ### Safety -/

/-- The file has what is needed for `n` bytes, though not all compressed bytes. Where the data are
deflated no more than `n` bytes of the member are left; in the other ways no more is decompressed
than has been read. -/
structure Supplied (n : Nat) (r : Reader) : Prop where
  file_ne_nil : r.file ≠ []
  asked : r.way = .deflated → n ≠ 0 ∧ r.left ≤ n
  enough : r.left ≤ r.ahead.length ∨ r.Finishes

/-- Reading `n` bytes does not fail. -/
structure Safe (n : Nat) (r : Reader) : Prop where
  sound : r.Sound
  undamaged : ¬r.Damaged
  supplied : r.ended = true ∨ r.Complete ∨ r.Supplied n

/-- Where a request is still open, the file has not come to its end. -/
theorem Supplied.step (hr : r.Supplied n) (heven : r.Even) (hsteps : Steps n r data s)
    (hended : s.ended = false) (hcomplete : ¬s.Complete) : s.Supplied (n - data.length) := by
  obtain ⟨hleft, hahead, hexhausted⟩ := hsteps.goes hended
  have hspent := hsteps.left_eq
  have hlength := congrArg List.length hahead
  rw [List.length_append] at hlength
  have hasked : s.way = .deflated → n ≠ 0 ∧ r.left ≤ n := fun h =>
    hr.asked (hsteps.keeps.way_eq.symm.trans h)
  have henough : s.left ≤ s.ahead.length ∨ s.Finishes :=
    hr.enough.imp (fun _ => by omega) hsteps.keeps.finishes_iff.mpr
  refine ⟨fun hfile => ?_, fun h => ?_, henough⟩
  · rcases hexhausted heven hfile with hc | ⟨hway, hfull⟩ | ⟨hnil, hfinish⟩
    · exact hcomplete hc
    · have := (hasked hway).2
      omega
    · have hle := henough.resolve_right hfinish
      rw [hnil, List.length_nil] at hle
      omega
  · have := (hasked h).2
    exact ⟨by omega, by omega⟩

theorem Safe.step (hr : r.Safe n) (hended : r.ended = false) (hn : n ≠ 0)
    (h : r.step n = .ok (data, s)) : s.Safe (n - data.length) := by
  have hproper := hr.sound.proper
  have hsteps := steps_step hproper.started hended hn h
  refine ⟨hr.sound.step hended hn h, mt hsteps.keeps.damaged_iff.mp hr.undamaged, ?_⟩
  by_cases hsended : s.ended = true
  · exact .inl hsended
  by_cases hcomplete : s.Complete
  · exact .inr (.inl hcomplete)
  rcases hr.supplied with h | hrcomplete | hsupplied
  · exact absurd (hended.symm.trans h) (by decide)
  · exact absurd (hsteps.keeps.complete_iff.mpr hrcomplete) hcomplete
  · exact .inr (.inr
      (hsupplied.step hproper.even hsteps (Bool.eq_false_iff.mpr hsended) hcomplete))

theorem Safe.step_ne_error (hr : r.Safe n) (hended : r.ended = false) (hn : n ≠ 0) :
    r.step n ≠ .error e := by
  intro h
  have hproper := hr.sound.proper
  rcases cause_of_step hproper.started hended hn h with
    ⟨-, hfile, hcomplete⟩ | hdamage | hcheck
  · rcases hr.supplied with h | hc | hsupplied
    · exact absurd (hended.symm.trans h) (by decide)
    · exact hcomplete hc
    · exact hsupplied.file_ne_nil hfile
  · exact hr.undamaged hdamage.2
  · exact hcheck.2 hproper.even hr.sound.checks

theorem Safe.with_pending (hr : r.Safe n) (pending : Bytes) :
    Safe n { r with pending := pending } :=
  ⟨hr.sound.with_pending pending, hr.undamaged,
    hr.supplied.imp_right (Or.imp_right fun h => ⟨h.file_ne_nil, h.asked, h.enough⟩)⟩

/-- Where nothing is asked for, it is safe to ask for anything. -/
theorem Safe.any (hr : r.Safe 0) (n : Nat) : r.Safe n := by
  refine ⟨hr.sound, hr.undamaged, hr.supplied.imp_right (Or.imp_right fun h => ?_)⟩
  exact ⟨h.file_ne_nil, fun hway => absurd rfl (h.asked hway).1, h.enough⟩

/-- Reads of `n` bytes do not fail, one after another. -/
def Copyable (n : Nat) (r : Reader) : Prop := r.Safe n ∧ (r.pending = [] ∨ r.Safe 0)

private theorem Copyable.of_safe (hr : r.Safe 0) : r.Copyable n := ⟨hr.any n, .inr hr⟩

theorem Copyable.read (hr : r.Copyable n) :
    ∃ data s, r.read n = .ok (data, s) ∧ s.Copyable n := by
  obtain ⟨hsafe, hpending⟩ := hr
  unfold Reader.read
  split
  · next hmuch =>
    have hzero : r.Safe 0 := hpending.resolve_left fun hnil => by
      rw [hnil, List.length_nil] at hmuch
      omega
    exact ⟨_, _, rfl, .of_safe (hzero.with_pending _)⟩
  have hasked : r.Safe (n - r.pending.length) := by
    rcases hpending with hnil | hzero
    · rw [hnil]
      exact hsafe
    · exact hzero.any _
  obtain ⟨herror, hok⟩ := fill_induction (P := fun m t => t.Safe m)
    (fun h => h.sound.proper.started) Safe.step (hasked.with_pending []) (lasts_stepsLeft r)
    [r.pending]
  split
  · next e hfill =>
    obtain ⟨m, t, ht, hended, hm, hstep⟩ := herror e hfill
    exact absurd hstep (ht.step_ne_error hended hm)
  · next out s hfill =>
    obtain ⟨m, t, pending, ht, hstop, rfl⟩ := hok out s hfill
    have hzero : t.Safe 0 := by
      rcases hstop with rfl | hended
      · exact ht
      · exact ⟨ht.sound, ht.undamaged, .inl hended⟩
    exact ⟨_, _, rfl, .of_safe (hzero.with_pending pending)⟩

/-! ### Copying -/

/-- Nothing has been read yet. -/
structure Fresh (r : Reader) : Prop where
  started : r.Started
  ended_eq : r.ended = false
  pending_eq : r.pending = []
  pulled_eq : r.pulled = 0

theorem Fresh.proper (hr : r.Fresh) (heven : r.Even) : r.Proper := ⟨hr.started, heven⟩

/-- Reading `n` bytes at a time needs nothing beyond what reading at once needs: deflated data are
cut off by the end of the file only if there are no more than `n`, and compressed data are damaged
in the end only if reading at once would see it. -/
structure Tame (n : Nat) (r : Reader) : Prop where
  cut : r.way = .deflated → r.Complete ∨ r.left ≤ n
  damaged : r.Damaged →
    r.compressedLeft ≤ mostRead ∧ (r.way = .deflated → r.ahead.length < mostRead)

private theorem not_damaged_of_stored (h : r.way = .stored) : ¬r.Damaged := by
  unfold way at h
  unfold Damaged
  split at h
  · exact not_false
  · cases h
  · cases h

/-- Reading at once starts with a step. -/
theorem step_of_readAll (hended : r.ended = false) (h : r.readAll = .ok (data, s)) :
    ∃ p, Reader.step { r with pending := [] } mostRead = .ok p := by
  unfold readAll at h
  split at h
  · cases h
  next out t hdrain =>
  obtain ⟨fuel, hfuel⟩ := Nat.exists_eq_succ_of_ne_zero (Nat.ne_of_gt r.stepsLeft_pos)
  rw [hfuel, drain, if_neg (by simp [hended])] at hdrain
  split at hdrain
  · cases hdrain
  next data t hstep => exact ⟨_, hstep⟩

theorem Fresh.without_pending (hr : r.Fresh) : { r with pending := [] } = r := by
  rw [← hr.pending_eq]

/-- What is gathered first is read from the file. -/
theorem Fresh.pull_of_gather (hr : r.Fresh) (hn : n ≠ 0) (h : r.gather n = .ok s) :
    ∃ got, r.pull n = .ok (got, s) := by
  simp only [gather, hr.pulled_eq, Nat.zero_sub, Nat.sub_zero] at h
  rw [if_pos (Nat.pos_of_ne_zero hn)] at h
  cases hpull : r.pull n with
  | error e =>
    rw [hpull] at h
    cases h
  | ok p =>
    rw [hpull] at h
    exact ⟨p.1, congrArg Except.ok (Prod.ext rfl (Except.ok.inj h))⟩

/-- The first step reads from the file. -/
theorem pull_of_step (hr : r.Fresh) (hn : n ≠ 0) (h : r.step n = .ok (data, s)) :
    ∃ p, r.pull n = .ok p := by
  obtain ⟨got, t, hraw, -⟩ := step_eq_ok hr.ended_eq hn h
  unfold raw at hraw
  split at hraw
  · obtain ⟨t, hpull, -⟩ := stored_eq_ok hraw
    exact ⟨_, hpull⟩
  · obtain ⟨t, p, hgather, -⟩ := compressed_eq_ok hraw
    obtain ⟨got, hpull⟩ := hr.pull_of_gather hn hgather
    exact ⟨_, hpull⟩
  · obtain ⟨piece, t, last, hpull, -⟩ := unpacked_eq_ok hraw
    exact ⟨_, hpull⟩

/-- A request for all compressed bytes reads all that the file has. -/
private theorem exhausted_of_pull (hn : r.compressedLeft ≤ n) (h : r.pull n = .ok (data, s)) :
    s.compressedLeft = 0 ∨ s.file = [] := by
  unfold pull at h
  split at h
  · next hleft =>
    cases h
    exact .inl hleft
  · dsimp only at h
    split at h
    · cases h
    · cases h
      simp only [List.length_take, List.drop_eq_nil_iff]
      omega

/-- A first step that has all compressed bytes, and room for what they give, sees damage. -/
private theorem not_damaged_of_step (hr : r.Fresh) (heven : r.Even) (hn : n ≠ 0)
    (hsize : r.compressedLeft ≤ n) (hroom : r.way = .deflated → r.ahead.length < n)
    (h : r.step n = .ok (data, s)) : ¬r.Damaged := by
  obtain ⟨got, t, hraw, -⟩ := step_eq_ok hr.ended_eq hn h
  have hstarted := hr.started
  unfold raw at hraw
  split at hraw
  · next hform => simp only [Damaged, hform, not_false_eq_true]
  · next flow hform =>
    obtain ⟨q, p, hgather, hrun, -⟩ := compressed_eq_ok hraw
    obtain ⟨pulled, hpull⟩ := hr.pull_of_gather hn hgather
    have havailable := (pulls_pull hpull).1.available_eq
    have htotal : r.available ≤ q.pulled := by
      have := exhausted_of_pull hsize hpull
      rw [← havailable, available]
      rcases this with hnone | hnil
      · omega
      · rw [hnil, List.length_nil]
        omega
    have hready : flow.ready.length < max n leastRead := by
      have hahead : flow.bytes.length < n := by
        simpa only [ahead, hform] using hroom (by simp only [way, hform])
      rw [Deflate.Flow.bytes, List.length_map] at hahead
      omega
    simp only [Started, hform] at hstarted
    simp only [Damaged, hform]
    exact Deflate.Flow.not_isDamage_of_run hstarted htotal hready hrun
  · next u fed hform =>
    obtain ⟨piece, q, last, hpull, hfeed, -⟩ := unpacked_eq_ok hraw
    have hinput : r.supply fed = input (piece :: fed) :=
      (pulls_pull hpull).1.supply_eq.symm.trans
        (supply_eq_input _ (exhausted_of_pull hsize hpull))
    simp only [Started, hform] at hstarted
    simp only [Even, hform] at heven
    simp only [Damaged, hform]
    rcases heven with heager | hends
    · rw [hinput]
      exact (heager (hstarted hr.ended_eq) hfeed).2
    · exact u.not_damaged hends

/-- What can be read at once can be copied, if it is tame. -/
theorem copyable_of_readAll (hr : r.Fresh) (heven : r.Even) (hn : n ≠ 0) (htame : r.Tame n)
    (h : r.readAll = .ok (data, s)) : r.Copyable n := by
  have hproper := hr.proper heven
  obtain ⟨-, hrest⟩ := readAll_eq_ok hproper h
  obtain ⟨hchecks, henough⟩ := hrest hr.ended_eq
  obtain ⟨p, hstep⟩ := step_of_readAll hr.ended_eq h
  rw [hr.without_pending] at hstep
  obtain ⟨q, hpull⟩ := pull_of_step hr (by decide) hstep
  refine ⟨⟨⟨hproper, hchecks⟩, fun hdamaged => ?_, .inr ?_⟩, .inl hr.pending_eq⟩
  · -- the first step has had all compressed bytes, and has seen their end
    obtain ⟨hsize, hroom⟩ := htame.damaged hdamaged
    exact not_damaged_of_step hr heven (by decide) hsize hroom hstep hdamaged
  · by_cases hcomplete : r.Complete
    · exact .inl hcomplete
    refine .inr ⟨fun hfile => hcomplete ?_, fun hway => ⟨hn, ?_⟩,
      henough.resolve_left hcomplete⟩
    · obtain ⟨hpulls, hempty⟩ := pulls_pull hpull
      have hnil := hpulls.file_eq
      rw [hfile, List.nil_eq_append_iff] at hnil
      rw [Complete, hempty hnil.1]
      exact Nat.zero_le _
    · exact (htame.cut hway).resolve_left hcomplete

theorem read_source (n : Nat) (r : Reader) :
    source.read n r = (r.read n).mapError Fault.trouble := by
  have hsize : r.readSize n = r.read n := by
    rw [readSize, if_neg (Int.not_lt.mpr (Int.natCast_nonneg n)), Int.toNat_natCast]
  rw [← hsize]
  rfl

private theorem read_of_read_source (h : source.read n r = .ok (data, s)) :
    r.read n = .ok (data, s) := by
  rw [read_source] at h
  cases hr : r.read n with
  | error e =>
    rw [hr] at h
    cases h
  | ok p =>
    rw [hr] at h
    exact congrArg Except.ok (Except.ok.inj h)

private theorem exists_of_read_source {why : Trouble} (h : source.read n r = .error why) :
    ∃ e, r.read n = .error e ∧ why = e.trouble := by
  rw [read_source] at h
  cases hr : r.read n with
  | error e =>
    rw [hr] at h
    exact ⟨e, rfl, (Except.error.inj h).symm⟩
  | ok p =>
    rw [hr] at h
    cases h

/-- Reads give what is to come, piece by piece. -/
theorem gives_source {inv : Reader → Prop} (hn : n ≠ 0) (hproper : ∀ {r}, inv r → r.Proper)
    (hkeeps : ∀ {r data s}, inv r → r.read n = .ok (data, s) → inv s) :
    source.Gives n upcoming inv := by
  refine ⟨fun hr h => hkeeps hr (read_of_read_source h), fun hr h => ?_, fun hr h => ?_⟩
  · obtain ⟨hdata, hs⟩ := read_eq_ok (hproper hr) (read_of_read_source h)
    rw [hdata, hs, List.take_append_drop]
  · obtain ⟨hdata, -⟩ := read_eq_ok (hproper hr) (read_of_read_source h)
    exact (List.take_eq_nil_iff.mp hdata.symm).resolve_left hn

/-- What is copied is the first of what is to come. It fails with a problem of reading, unless a
decompressor fails that may have another one. -/
theorem copy_prefix (hr : r.Started) (n : Nat) : (source.copy n r).writes.flatten <+: r.upcoming ∧
    ∀ why, (source.copy n r).fault = some why → why.kind.isReading = true ∨ r.way = .packed := by
  have htakes : source.Takes n upcoming fun t => t.Started ∧ t.way = r.way := by
    refine ⟨fun ht h => ?_, fun ht h => read_prefix ht.1 (read_of_read_source h)⟩
    exact (ht.1.read.2 _ _ (read_of_read_source h)).imp_right (·.trans ht.2)
  obtain ⟨hfirst, hfails⟩ := htakes.copy ⟨hr, rfl⟩
  refine ⟨hfirst, fun why hfault => ?_⟩
  obtain ⟨t, ⟨ht, hway⟩, hread⟩ := hfails why hfault
  obtain ⟨e, he, rfl⟩ := exists_of_read_source hread
  rw [← hway]
  exact ht.read.1 e he

/-- All of what is to come is copied unless a read fails, and nothing is held back. -/
theorem copy_eq (hr : r.Proper) (hn : n ≠ 0) (h : (source.copy n r).fault = none) :
    (source.copy n r).writes.flatten = r.upcoming :=
  (gives_source hn id Proper.read).copy hr h

/-- **Copying what can be read at once** does not fail if the member is tame and nothing is held
back. -/
theorem fault_copy_of_readAll (hr : r.Fresh) (heven : r.Even) (hn : n ≠ 0) (htame : r.Tame n)
    (h : r.readAll = .ok (data, s)) : (source.copy n r).fault = none := by
  have hkeeps : ∀ {t : Reader} {data : Bytes} {s : Reader}, t.Copyable n →
      t.read n = .ok (data, s) → s.Copyable n := by
    intro t data s ht h
    obtain ⟨data', s', hok, hs'⟩ := ht.read
    cases h.symm.trans hok
    exact hs'
  have hsafe := gives_source hn (fun ht => ht.1.sound.proper) hkeeps
  rw [Option.eq_none_iff_forall_ne_some]
  intro why hfault
  obtain ⟨t, ht, hread⟩ :=
    (hsafe.takes.copy (copyable_of_readAll hr heven hn htame h)).2 why hfault
  obtain ⟨e, he, -⟩ := exists_of_read_source hread
  obtain ⟨data, u, hok, -⟩ := ht.read
  cases he.symm.trans hok

end Reader

/-! ### Members -/

variable {tools : Tools} {file : Bytes} {a : Archive} {m : Member} {r : Reader} {data : Bytes}

/-- The data of the member are decompressed by a library. -/
def Member.IsPacked (m : Member) : Prop := m.method = bzip2Method ∨ m.method = lzmaMethod

/-- The form of data by the method that they are written by. -/
private theorem formOf_cases {method : Nat} {form : Form}
    (h : formOf tools method data = .ok form) :
    (method = storeMethod ∧ form = .stored) ∨
    (method = deflateMethod ∧ form = .deflated (Deflate.inflate data)) ∨
    (method = bzip2Method ∧ ∃ u, form = .packed u []) ∨
    (method = lzmaMethod ∧ ∃ u : Unpacker, u.Eager ∧ form = .packed u []) := by
  unfold formOf at h
  split at h
  · next hmethod =>
    cases h
    exact .inl ⟨hmethod, rfl⟩
  split at h
  · next hmethod =>
    cases h
    exact .inr (.inl ⟨hmethod, rfl⟩)
  split at h
  · next hmethod =>
    split at h
    · next u hu =>
      cases h
      exact .inr (.inr (.inl ⟨hmethod, u, rfl⟩))
    · cases h
  split at h
  · next hmethod =>
    split at h
    · next u hu =>
      cases h
      exact .inr (.inr (.inr ⟨hmethod, u.val, u.property, rfl⟩))
    · cases h
  · cases h

/-- The reader of a member has nothing read. -/
private theorem openMember_eq_ok (h : openMember tools file m = .ok r) : ∃ place form,
    formOf tools m.method ((file.drop place).take m.compressedSize) = .ok form ∧
      r = ⟨m.name, m.crc, file.drop place, m.compressedSize, 0, 0, form, m.size, 0, false, []⟩ := by
  unfold openMember at h
  cases hplace : checkHeader file m with
  | error e =>
    rw [hplace] at h
    cases h
  | ok place =>
    rw [hplace] at h
    simp only [bind, Except.bind] at h
    split at h
    · cases h
    split at h
    · split at h <;> cases h
    split at h
    · cases h
    next form hform =>
    cases h
    exact ⟨place, form, hform, rfl⟩

/-- The reader of a member is fresh. It is even unless the data are packed by the first further
method, and a decompressor of a library takes part only if they are packed. -/
theorem fresh_of_openMember (h : openMember tools file m = .ok r) : r.Fresh ∧
    (m.method = storeMethod → r.way = .stored) ∧ (m.method ≠ bzip2Method → r.Even) ∧
    (r.way = .packed → m.IsPacked) := by
  obtain ⟨place, form, hform, rfl⟩ := openMember_eq_ok h
  rcases formOf_cases hform with
    ⟨hmethod, rfl⟩ | ⟨hmethod, rfl⟩ | ⟨hmethod, u, rfl⟩ | ⟨hmethod, u, heager, rfl⟩
  · exact ⟨⟨trivial, rfl, rfl, rfl⟩, fun _ => rfl, fun _ => trivial, nofun⟩
  · refine ⟨⟨?_, rfl, rfl, rfl⟩, fun h => absurd (h.symm.trans hmethod) (by decide),
      fun _ => trivial, nofun⟩
    have hfits := Deflate.fits_inflate ((file.drop place).take m.compressedSize)
    rw [List.length_take] at hfits
    simpa only [Reader.Started, Reader.available, Nat.zero_add] using hfits
  · exact ⟨⟨fun _ => trivial, rfl, rfl, rfl⟩, fun h => absurd (h.symm.trans hmethod) (by decide),
      fun h => absurd hmethod h, fun _ => .inl hmethod⟩
  · exact ⟨⟨fun _ => trivial, rfl, rfl, rfl⟩, fun h => absurd (h.symm.trans hmethod) (by decide),
      fun _ => .inl heager, fun _ => .inr hmethod⟩

namespace Archive

/-- Nothing of the member's data is held back where its compressed data are used up. -/
def Even (a : Archive) (m : Member) : Prop := ∀ r, a.openMember m = .ok r → r.Even

/-- Copying a member needs nothing beyond what reading it at once needs (`Reader.Tame`). -/
def Tame (a : Archive) (m : Member) : Prop :=
  ∀ r, a.openMember m = .ok r → r.Tame copySize.toNat

theorem openMember_file (h : a.openMember m = .ok r) : Zip.openMember a.tools a.file m = .ok r := by
  unfold openMember at h
  split at h
  · cases h
  · exact h

/-- Stored members are tame. -/
theorem tame_of_stored (h : m.method = storeMethod) : a.Tame m := by
  intro r hr
  have hway := (fresh_of_openMember (openMember_file hr)).2.1 h
  refine ⟨fun hdeflated => ?_, fun hdamaged => ?_⟩
  · cases hway.symm.trans hdeflated
  · exact absurd hdamaged (Reader.not_damaged_of_stored hway)

/-- Only one method may hold something back. -/
theorem even_of_method (h : m.method ≠ bzip2Method) : a.Even m := fun _ hr =>
  (fresh_of_openMember (openMember_file hr)).2.2.1 h

private theorem readMember_eq_ok (h : a.readMember m = .ok data) :
    ∃ r s, a.openMember m = .ok r ∧ r.readAll = .ok (data, s) := by
  unfold readMember at h
  cases hopen : a.openMember m with
  | error e =>
    rw [hopen] at h
    cases h
  | ok r =>
    rw [hopen] at h
    cases hread : r.readAll with
    | error e =>
      simp only [hread] at h
      cases h
    | ok p =>
      simp only [hread] at h
      cases h
      exact ⟨r, p.2, rfl, hread⟩

theorem stream_of_openMember {table : FlagTable} (h : a.openMember m = .ok r) :
    (a.entry m : Entry table).stream =
      .ok fun size => (Reader.source.copy size r).mapFault .trouble := by
  simp only [entry, h]

/-- **Copying a member that can be read** does not fail if it is tame and nothing is held back. -/
theorem fault_copy_of_readMember (table : FlagTable) (h : a.readMember m = .ok data) :
    ∃ stream, (a.entry m : Entry table).stream = .ok stream ∧
      (a.Even m → a.Tame m → (stream copySize).fault = none) := by
  obtain ⟨r, s, hopen, hread⟩ := readMember_eq_ok h
  obtain ⟨hfresh, -⟩ := fresh_of_openMember (openMember_file hopen)
  refine ⟨_, stream_of_openMember hopen, fun heven htame => ?_⟩
  have hfault := Reader.fault_copy_of_readAll (n := copySize.toNat) hfresh (heven r hopen)
    (by decide) (htame r hopen) hread
  exact Option.map_eq_none_iff.mpr hfault

/-- The data of a member, as far as its file has them; none if it cannot be opened. -/
def content (a : Archive) (m : Member) : Bytes :=
  match a.openMember m with
  | .ok r => r.content
  | .error _ => []

private theorem content_of_openMember (h : a.openMember m = .ok r) : a.content m = r.upcoming := by
  rw [Reader.upcoming_eq_content (fresh_of_openMember (openMember_file h)).1.pending_eq]
  simp only [content, h]

/-- What is read of a member are its data, or the first of them if something is held back. -/
theorem content_of_readMember (h : a.readMember m = .ok data) :
    data <+: a.content m ∧ (a.Even m → data = a.content m) := by
  obtain ⟨r, s, hopen, hread⟩ := readMember_eq_ok h
  obtain ⟨hfresh, -⟩ := fresh_of_openMember (openMember_file hopen)
  rw [content_of_openMember hopen]
  exact ⟨Reader.readAll_prefix hfresh.started hread,
    fun heven => (Reader.readAll_eq_ok (hfresh.proper (heven r hopen)) hread).1⟩

/-- Where the data of a member cannot be opened, this is a trouble. -/
theorem trouble_of_stream {table : FlagTable} {e : Failure table}
    (h : (a.entry m : Entry table).stream = .error e) : ∃ why, e = .trouble why := by
  simp only [entry] at h
  split at h
  · exact ⟨_, (Except.error.inj h).symm⟩
  · cases h

/-- **Copying a member** gives the first of its data, and all of them unless there is a trouble or
something is held back. The trouble is one of reading, if it is not that of a library. -/
theorem copies_content {table : FlagTable} {stream : Int → Copied (Failure table)}
    (h : (a.entry m : Entry table).stream = .ok stream) :
    (stream copySize).writes.flatten <+: a.content m ∧
      (a.Even m → (stream copySize).fault = none →
        (stream copySize).writes.flatten = a.content m) ∧
      ∀ e, (stream copySize).fault = some e →
        ∃ why, e = .trouble why ∧ (why.kind.isReading = true ∨ m.IsPacked) := by
  cases hopen : a.openMember m with
  | error e =>
    simp only [entry, hopen] at h
    cases h
  | ok r =>
    obtain rfl := Except.ok.inj ((stream_of_openMember hopen).symm.trans h)
    obtain ⟨hfresh, -, -, hpacked⟩ := fresh_of_openMember (openMember_file hopen)
    obtain ⟨hfirst, hfails⟩ := Reader.copy_prefix hfresh.started copySize.toNat
    rw [content_of_openMember hopen]
    refine ⟨hfirst, fun heven hfault => ?_, fun e he => ?_⟩
    · exact Reader.copy_eq (n := copySize.toNat) (hfresh.proper (heven r hopen)) (by decide)
        (Option.map_eq_none_iff.mp hfault)
    · obtain ⟨why, hwhy, rfl⟩ := Option.map_eq_some_iff.mp he
      exact ⟨why, rfl, (hfails why hwhy).imp_right hpacked⟩

end Archive

end EntryRef.Zip
