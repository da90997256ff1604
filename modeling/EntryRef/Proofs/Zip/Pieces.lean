import EntryRef.Proofs.Zip.Content

/-!
# Reading in pieces

The content of a member comes out the same in whatever pieces it is read: all at once
(`Reader.readAll_eq_ok`) or some bytes at a time (`Reader.read_eq_ok`). Where a decompressor may
hold data back, what comes out is a prefix of the content (`Reader.readAll_prefix`,
`Reader.read_prefix`).

Reading goes step by step, and what holds before a step and behind it holds all the way
(`Reader.fill_induction`). What it fails for is a problem with the data, unless a decompressor has a
trouble of its own (`Reader.Started.read`).
-/

namespace EntryRef.Zip

namespace Reader

variable {r s t : Reader} {n fuel : Nat} {data : Bytes} {found out : List Bytes} {e : Fault}

/-! ### The content in pieces -/

theorem Proper.with_pending (hr : r.Proper) (pending : Bytes) :
    Proper { r with pending := pending } :=
  ⟨hr.started, hr.even⟩

/-- So many steps are enough to come to the end of the data. -/
def Lasts (fuel : Nat) (r : Reader) : Prop := r.ended = true ∨ r.stepsLeft ≤ fuel

/-- A reader lasts for as many steps as are counted for it. -/
theorem lasts_stepsLeft (r : Reader) : Lasts r.stepsLeft r := .inr (Nat.le_refl _)

theorem stepsLeft_pos (r : Reader) : 0 < r.stepsLeft := by
  unfold stepsLeft
  split <;> omega

/-- Where no step is left, the data are over. -/
theorem Lasts.ended (h : Lasts 0 r) : r.ended = true :=
  h.resolve_right (Nat.not_le.mpr r.stepsLeft_pos)

private theorem Steps.lasts (h : Steps n r data s) (hended : r.ended = false)
    (hr : Lasts (fuel + 1) r) :
    Lasts fuel s := by
  have hle := hr.resolve_left (by simp [hended])
  exact h.less.imp_right fun hless => Nat.le_of_lt_succ (Nat.lt_of_lt_of_le hless hle)

private theorem content_of_ended (h : r.ended = true) : r.content = [] := if_pos h

/-- With nothing in store, what comes is what is still to be read. -/
theorem upcoming_eq_content (h : r.pending = []) : r.upcoming = r.content := by
  rw [upcoming, h, List.nil_append]

/-- The data of the file reach up to the member's size, or are over before. -/
def Enough (r : Reader) : Prop := r.Complete ∨ r.left ≤ r.ahead.length ∨ r.Finishes

/-- The check is right before a step if it is right behind it, or the step was the last one. -/
theorem Steps.checks (h : Steps n r data s) (hr : r.Even) (hs : s.ended = false → s.Checks) :
    r.Checks := by
  have hchecks : s.Checks := by
    cases hended : s.ended with
    | false => exact hs hended
    | true =>
      rw [Checks, check, content_of_ended hended, Crc32.update_nil]
      exact h.checked hended
  rwa [Checks, h.check_eq hr, h.expected_eq] at hchecks

/-- The file has enough before a step if it has enough behind it, or the step was the last one. -/
theorem Steps.enough (h : Steps n r data s) (hr : r.Even) (hended : r.ended = false)
    (hs : s.ended = false → s.Enough) : r.Enough := by
  have hfinishes := h.keeps.finishes_iff.mp
  have hcomplete := h.keeps.complete_iff.mp
  have hleft := h.left_eq
  cases hsended : s.ended with
  | false =>
    have hahead := congrArg List.length (h.goes hsended).2.1
    rw [List.length_append] at hahead
    refine (hs hsended).imp hcomplete (Or.imp (fun hle => ?_) hfinishes)
    omega
  | true =>
    rcases h.at_end hsended with hzero | hall | hfinish
    · -- the step has given all of the member's size
      have hcontent := congrArg List.length (h.content_eq hr)
      rw [content_of_ended hsended, List.append_nil, content, if_neg (by simp [hended]),
        List.length_take] at hcontent
      refine .inr (.inl ?_)
      omega
    · exact .inl (hcomplete hall)
    · exact .inr (.inr (hfinishes hfinish))

/-- Reading until the data are over gives the content, and tells that the check is right. -/
theorem drain_eq_ok (hr : r.Proper) (hfuel : r.Lasts fuel)
    (h : drain fuel r found = .ok (out, s)) :
    out.reverse.flatten = found.reverse.flatten ++ r.content ∧
      (r.ended = false → r.Checks ∧ r.Enough) := by
  induction fuel generalizing r found with
  | zero =>
    have hended := hfuel.ended
    cases h
    rw [content_of_ended hended, List.append_nil]
    exact ⟨rfl, fun h => absurd (hended.symm.trans h) (by decide)⟩
  | succ fuel ih =>
    obtain ⟨hended, rfl, rfl⟩ | ⟨data, t, hended, hstep, hgoes⟩ := drain_succ_eq_ok h
    · rw [content_of_ended hended, List.append_nil]
      exact ⟨rfl, fun h => absurd (hended.symm.trans h) (by decide)⟩
    have hsteps := steps_step hr.started hended (by decide) hstep
    obtain ⟨hout, hrest⟩ := ih (hsteps.proper hr) (hsteps.lasts hended hfuel) hgoes
    refine ⟨?_, fun _ => ⟨hsteps.checks hr.even fun ht => (hrest ht).1, ?_⟩⟩
    · rw [hout, hsteps.content_eq hr.even, flatten_reverse_cons, List.append_assoc]
    · exact hsteps.enough hr.even hended fun ht => (hrest ht).2

/-- **Reading at once** gives all that is to come. -/
theorem readAll_eq_ok (hr : r.Proper) (h : r.readAll = .ok (data, s)) :
    data = r.upcoming ∧ (r.ended = false → r.Checks ∧ r.Enough) := by
  unfold readAll at h
  split at h
  · cases h
  next out t hdrain =>
  cases h
  have hproper : Proper { r with pending := [] } := hr.with_pending []
  obtain ⟨hout, hrest⟩ := drain_eq_ok hproper (lasts_stepsLeft r) hdrain
  refine ⟨?_, hrest⟩
  rw [hout, List.reverse_singleton, List.flatten_singleton]
  rfl

/-- At the end of the data nothing more is given, and nothing is left. -/
theorem parts_of_ended (hpending : r.pending = []) (hended : r.ended = true) (n : Nat)
    (found : Bytes) : found = found ++ r.content.take n ∧ r.upcoming = r.content.drop n := by
  rw [upcoming_eq_content hpending, content_of_ended hended, List.take_nil, List.append_nil,
    List.drop_nil]
  exact ⟨rfl, rfl⟩

/-- Filling a request gives the next `n` bytes, and leaves those behind them. -/
private theorem fill_eq_ok (hr : r.Proper) (hpending : r.pending = [])
    (hfuel : r.Lasts fuel) (h : fill fuel n r found = .ok (out, s)) :
    out.reverse.flatten = found.reverse.flatten ++ r.content.take n ∧
      s.upcoming = r.content.drop n := by
  induction fuel generalizing n r found with
  | zero =>
    cases h
    exact parts_of_ended hpending hfuel.ended n _
  | succ fuel ih =>
    obtain ⟨hstop, rfl, rfl⟩ | ⟨data, t, hn, hended, hstep, hround⟩ := fill_succ_eq_ok h
    · rcases hstop with rfl | hended
      · rw [List.take_zero, List.append_nil, List.drop_zero, upcoming_eq_content hpending]
        exact ⟨rfl, rfl⟩
      · exact parts_of_ended hpending hended n _
    have hsteps := steps_step hr.started hended hn hstep
    have htpending : t.pending = [] := hsteps.pending_eq.trans hpending
    rw [hsteps.content_eq hr.even]
    rcases hround with ⟨hmuch, rfl, rfl⟩ | ⟨hle, hgoes⟩
    · have hle : n ≤ data.length := Nat.le_of_lt hmuch
      rw [List.take_append_of_le_length hle, List.drop_append_of_le_length hle,
        flatten_reverse_cons]
      exact ⟨rfl, rfl⟩
    · obtain ⟨hout, hupcoming⟩ := ih (hsteps.proper hr) htpending (hsteps.lasts hended hfuel) hgoes
      rw [hout, hupcoming, flatten_reverse_cons, List.take_append, List.take_of_length_le hle,
        List.drop_append, List.drop_of_length_le hle, List.append_assoc]
      exact ⟨rfl, rfl⟩

/-- **Reading some bytes** gives the first of what is to come, and leaves the rest. -/
theorem read_eq_ok (hr : r.Proper) (h : r.read n = .ok (data, s)) :
    data = r.upcoming.take n ∧ s.upcoming = r.upcoming.drop n := by
  unfold read at h
  split at h
  · next hmuch =>
    cases h
    have hle : n ≤ r.pending.length := Nat.le_of_lt hmuch
    rw [upcoming, upcoming, List.take_append_of_le_length hle, List.drop_append_of_le_length hle]
    exact ⟨rfl, rfl⟩
  next hfew =>
  have hle : r.pending.length ≤ n := Nat.le_of_not_lt hfew
  split at h
  · cases h
  next out t hfill =>
  cases h
  have hproper : Proper { r with pending := [] } := hr.with_pending []
  obtain ⟨hout, hupcoming⟩ := fill_eq_ok hproper rfl (lasts_stepsLeft r) hfill
  rw [hout, hupcoming, upcoming, List.reverse_singleton, List.flatten_singleton, List.take_append,
    List.take_of_length_le hle, List.drop_append, List.drop_of_length_le hle]
  exact ⟨rfl, rfl⟩

/-! ### States on the way -/

/-- What holds before a step and behind it, of the number of bytes that are still asked for, holds
all the way: where a step fails, and where reading stops. -/
theorem fill_induction {P : Nat → Reader → Prop} (hstarted : ∀ {n r}, P n r → r.Started)
    (hkeeps : ∀ {n r data s}, P n r → r.ended = false → n ≠ 0 → r.step n = .ok (data, s) →
      P (n - data.length) s)
    (hr : P n r) (hfuel : r.Lasts fuel) (found : List Bytes) :
    (∀ e, fill fuel n r found = .error e →
      ∃ m t, P m t ∧ t.ended = false ∧ m ≠ 0 ∧ t.step m = .error e) ∧
    ∀ out s, fill fuel n r found = .ok (out, s) → ∃ m t pending,
      P m t ∧ (m = 0 ∨ t.ended = true) ∧ s = { t with pending := pending } := by
  induction fuel generalizing n r found with
  | zero =>
    constructor
    · rintro _ ⟨⟩
    · rintro _ _ ⟨⟩
      exact ⟨n, r, r.pending, hr, .inr hfuel.ended, rfl⟩
  | succ fuel ih =>
    unfold fill
    split
    · next hstop =>
      rw [Bool.or_eq_true, decide_eq_true_iff] at hstop
      constructor
      · rintro _ ⟨⟩
      · rintro _ _ ⟨⟩
        exact ⟨n, r, r.pending, hr, hstop, rfl⟩
    next hgoes =>
    rw [Bool.or_eq_true, decide_eq_true_iff, not_or, Bool.not_eq_true] at hgoes
    cases hstep : r.step n with
    | error e =>
      constructor
      · rintro _ ⟨⟩
        exact ⟨n, r, hr, hgoes.2, hgoes.1, hstep⟩
      · rintro _ _ ⟨⟩
    | ok p =>
      obtain ⟨data, t⟩ := p
      have hkept := hkeeps hr hgoes.2 hgoes.1 hstep
      have hsteps := steps_step (hstarted hr) hgoes.2 hgoes.1 hstep
      dsimp only
      split
      · next hmuch =>
        constructor
        · rintro _ ⟨⟩
        · rintro _ _ ⟨⟩
          exact ⟨_, t, data.drop n, hkept, .inl (by omega), rfl⟩
      · exact ih hkept (hsteps.lasts hgoes.2 hfuel) (data :: found)

/-- What a step keeps, and what does not depend on the pending data, is kept by reading. -/
theorem read_induction {P : Reader → Prop} (hstarted : ∀ {r}, P r → r.Started)
    (hkeeps : ∀ {r n data s}, P r → r.ended = false → n ≠ 0 → r.step n = .ok (data, s) → P s)
    (hpending : ∀ {r} pending, P r → P { r with pending := pending }) (hr : P r) :
    (∀ e, r.read n = .error e →
      ∃ m t, P t ∧ t.ended = false ∧ m ≠ 0 ∧ t.step m = .error e) ∧
    ∀ data s, r.read n = .ok (data, s) → P s := by
  unfold Reader.read
  split
  · refine ⟨nofun, ?_⟩
    rintro _ _ ⟨⟩
    exact hpending _ hr
  obtain ⟨herror, hok⟩ := fill_induction (P := fun _ t => P t) (n := n - r.pending.length)
    hstarted hkeeps (hpending [] hr) (lasts_stepsLeft r) [r.pending]
  split
  · next e hfill =>
    refine ⟨?_, nofun⟩
    rintro _ ⟨⟩
    exact herror e hfill
  · next out s hfill =>
    refine ⟨nofun, ?_⟩
    rintro _ _ ⟨⟩
    obtain ⟨m, t, pending, ht, -, rfl⟩ := hok out s hfill
    exact hpending pending ht

/-- A reader that gives all of its content goes on to do so. -/
theorem Proper.read (hr : r.Proper) (h : r.read n = .ok (data, s)) : s.Proper :=
  (read_induction (P := Proper) Proper.started
    (fun hr hended hn h => (steps_step hr.started hended hn h).proper hr)
    (fun pending hr => hr.with_pending pending) hr).2 data s h

private theorem Started.step (hr : r.Started) (hended : r.ended = false) (hn : n ≠ 0)
    (h : r.step n = .ok (data, s)) : s.Started ∧ s.way = r.way := by
  have hsteps := steps_step hr hended hn h
  exact ⟨hsteps.started, hsteps.keeps.way_eq⟩

/-- Reading fails with a problem of reading, unless a decompressor fails that may have another one.
It keeps the way in which the data are written. -/
theorem Started.read (hr : r.Started) :
    (∀ e, r.read n = .error e → e.kind.isReading = true ∨ r.way = .packed) ∧
      ∀ data s, r.read n = .ok (data, s) → s.Started ∧ s.way = r.way := by
  obtain ⟨herror, hok⟩ := read_induction (P := fun t => t.Started ∧ t.way = r.way) (n := n)
    And.left (fun ht hended hm h => (ht.1.step hended hm h).imp_right (·.trans ht.2))
    (fun _ ht => ht) ⟨hr, rfl⟩
  refine ⟨fun e he => ?_, hok⟩
  obtain ⟨m, t, ⟨ht, hway⟩, hended, hm, hstep⟩ := herror e he
  rw [← hway]
  rcases cause_of_step ht hended hm hstep with
    ⟨rfl, -⟩ | ⟨⟨why, rfl⟩ | ⟨hpacked, -⟩, -⟩ | ⟨⟨name, rfl⟩, -⟩
  · exact .inl rfl
  · exact .inl rfl
  · exact .inr hpacked
  · exact .inl rfl

/-- The data are read as they should be, and will have the check that they should have. -/
structure Sound (r : Reader) : Prop where
  proper : r.Proper
  checks : r.Checks

theorem Sound.with_pending (hr : r.Sound) (pending : Bytes) :
    Sound { r with pending := pending } :=
  ⟨hr.proper.with_pending pending, hr.checks⟩

theorem Sound.step (hr : r.Sound) (hended : r.ended = false) (hn : n ≠ 0)
    (h : r.step n = .ok (data, s)) : s.Sound := by
  have hsteps := steps_step hr.proper.started hended hn h
  refine ⟨hsteps.proper hr.proper, ?_⟩
  rw [Checks, hsteps.check_eq hr.proper.even, hsteps.expected_eq]
  exact hr.checks

/-! ### Data that are held back -/

/-- Whatever is held back, all that is read is the first of the content. -/
private theorem drain_prefix (hr : r.Started) (h : drain fuel r found = .ok (out, s)) :
    out.reverse.flatten <+: found.reverse.flatten ++ r.content := by
  induction fuel generalizing r found with
  | zero =>
    cases h
    exact List.prefix_append _ _
  | succ fuel ih =>
    obtain ⟨-, rfl, rfl⟩ | ⟨data, t, hended, hstep, hgoes⟩ := drain_succ_eq_ok h
    · exact List.prefix_append _ _
    have hsteps := steps_step hr hended (by decide) hstep
    have hout := ih hsteps.started hgoes
    rw [flatten_reverse_cons, List.append_assoc] at hout
    exact hout.trans ((List.prefix_append_right_inj _).mpr hsteps.content_prefix)

/-- What is read at once is the first of what is to come, even if some of it is held back. -/
theorem readAll_prefix (hr : r.Started) (h : r.readAll = .ok (data, s)) : data <+: r.upcoming := by
  unfold readAll at h
  split at h
  · cases h
  next out t hdrain =>
  cases h
  have hstarted : Started { r with pending := [] } := hr
  have hout := drain_prefix hstarted hdrain
  rw [List.reverse_singleton, List.flatten_singleton] at hout
  exact hout

/-- Whatever is held back, what is read and what still comes are the first of the content. -/
private theorem fill_prefix (hr : r.Started) (hpending : r.pending = [])
    (h : fill fuel n r found = .ok (out, s)) :
    out.reverse.flatten ++ s.upcoming <+: found.reverse.flatten ++ r.content := by
  induction fuel generalizing n r found with
  | zero =>
    cases h
    simp only [upcoming_eq_content hpending, List.prefix_rfl]
  | succ fuel ih =>
    obtain ⟨-, rfl, rfl⟩ | ⟨data, t, hn, hended, hstep, hround⟩ := fill_succ_eq_ok h
    · simp only [upcoming_eq_content hpending, List.prefix_rfl]
    have hsteps := steps_step hr hended hn hstep
    refine List.IsPrefix.trans ?_ ((List.prefix_append_right_inj _).mpr hsteps.content_prefix)
    rw [← List.append_assoc]
    rcases hround with ⟨-, rfl, rfl⟩ | ⟨-, hgoes⟩
    · -- what has been read and not been asked for is what comes next
      rw [flatten_reverse_cons, upcoming, List.append_assoc, ← List.append_assoc (data.take n),
        List.take_append_drop, ← List.append_assoc]
      exact List.prefix_rfl
    · have hout := ih hsteps.started (hsteps.pending_eq.trans hpending) hgoes
      rwa [flatten_reverse_cons] at hout

/-- What is read some bytes at a time is the first of what is to come, and what is to come then is
behind it. -/
theorem read_prefix (hr : r.Started) (h : r.read n = .ok (data, s)) :
    data ++ s.upcoming <+: r.upcoming := by
  unfold Reader.read at h
  split at h
  · cases h
    rw [upcoming, upcoming, ← List.append_assoc, List.take_append_drop]
    exact List.prefix_rfl
  split at h
  · cases h
  next out t hfill =>
  cases h
  have hstarted : Started { r with pending := [] } := hr
  have hout := fill_prefix hstarted rfl hfill
  rw [List.reverse_singleton, List.flatten_singleton] at hout
  exact hout

end Reader

end EntryRef.Zip
