import EntryRef.Proofs.Deflate.Reading

/-!
# Taking decompressed data bit by bit

`Flow.Fits` says that the bytes of a decompressor become known one after another and with the input
that there is. What comes of decompression fits (`fits_inflate`).

Running a decompressor takes the next of its bytes, whatever input it has been given and whatever
room there is: `Flow.Runs` says what a run that succeeds leaves to later ones, and that it gets on.
A run fails only where the compressed data are damaged (`Flow.runs_run`, `Flow.isDamage_of_run`).
-/

namespace EntryRef.Deflate

variable {n : Nat}

/-! ### What decompression gives -/

/-- Bytes that become known one after another, until so much input has been pulled, and with the
input that there is. -/
structure Known (pulled total : Nat) (rs : List Ready) : Prop where
  held_le : ∀ r ∈ rs, r.held ≤ pulled
  needs_le_held : ∀ r ∈ rs, r.needs ≤ r.held + 1
  needs_le_total : ∀ r ∈ rs, r.needs ≤ total
  ordered : rs.Pairwise fun r s => r.held ≤ s.held

namespace Known

variable {pulled later total : Nat} {rs : List Ready} {out : Array Ready}

theorem nil (pulled total : Nat) : Known pulled total [] :=
  ⟨nofun, nofun, nofun, List.Pairwise.nil⟩

theorem mono (h : Known pulled total rs) (hle : pulled ≤ later) : Known later total rs :=
  ⟨fun r hr => Nat.le_trans (h.held_le r hr) hle, h.needs_le_held, h.needs_le_total, h.ordered⟩

/-- One more byte, which waits behind all that has been pulled. -/
theorem push (h : Known pulled total out.toList) {r : Ready} (hheld : pulled ≤ r.held)
    (hlater : r.held ≤ later) (hneeds : r.needs ≤ r.held + 1) (htotal : r.needs ≤ total) :
    Known later total (out.push r).toList := by
  rw [Array.toList_push]
  refine ⟨?_, ?_, ?_, ?_⟩
  · rw [List.forall_mem_append]
    exact ⟨(h.mono (Nat.le_trans hheld hlater)).held_le, List.forall_mem_singleton.mpr hlater⟩
  · rw [List.forall_mem_append]
    exact ⟨h.needs_le_held, List.forall_mem_singleton.mpr hneeds⟩
  · rw [List.forall_mem_append]
    exact ⟨h.needs_le_total, List.forall_mem_singleton.mpr htotal⟩
  · rw [List.pairwise_append]
    refine ⟨h.ordered, List.pairwise_singleton _ r, fun s hs t ht => ?_⟩
    rw [List.mem_singleton.mp ht]
    exact Nat.le_trans (h.held_le s hs) hheld

theorem copyBack (distance length : Nat) (h : Known pulled total out.toList)
    (htotal : pulled ≤ total) :
    Known pulled total (Deflate.copyBack distance pulled length out).toList := by
  induction length generalizing out with
  | zero => exact h
  | succ length ih =>
    rw [Deflate.copyBack]
    exact ih (h.push (Nat.le_refl _) (Nat.le_refl _) (Nat.le_succ _) htotal)

end Known

/-- The compressed data are damaged. -/
def Ending.IsDamage : Ending → Prop
  | .fault _ _ | .tooFar _ => True
  | .finished _ | .starved => False

namespace Flow

/-- The data that are still to come. -/
def bytes (f : Flow) : Bytes := f.ready.map Ready.byte

/-- A decompressor of which so many bytes of input are used up: its bytes become known one after
another, and with the input that there is. -/
structure Fits (used total : Nat) (f : Flow) : Prop where
  used_le_held : ∀ r ∈ f.ready, used ≤ r.held
  needs_le_held : ∀ r ∈ f.ready, r.needs ≤ r.held + 1
  needs_le_total : ∀ r ∈ f.ready, r.needs ≤ total
  ordered : f.ready.Pairwise fun r s => r.held ≤ s.held
  ending_le : ∀ k, f.ending.needs? = some k → used ≤ k ∧ k ≤ total
  held_le_ending : ∀ k, f.ending.needs? = some k → ∀ r ∈ f.ready, r.held ≤ k

end Flow

/-- What is known fits an ending that shows behind it. -/
theorem Known.fits {pulled total : Nat} {rs : List Ready} (h : Known pulled total rs)
    {ending : Ending}
    (hending : ∀ k, ending.needs? = some k → pulled ≤ k ∧ k ≤ total) :
    Flow.Fits 0 total ⟨rs, ending⟩ where
  used_le_held _ _ := Nat.zero_le _
  needs_le_held := h.needs_le_held
  needs_le_total := h.needs_le_total
  ordered := h.ordered
  ending_le k hk := ⟨Nat.zero_le k, (hending k hk).2⟩
  held_le_ending k hk r hr := Nat.le_trans (h.held_le r hr) (hending k hk).1

private theorem fits_inflateFrom (fuel : Nat) {mode : Mode} {b : Bits} {out : Array Ready}
    (hmode : mode.Aligned b) (hb : b.Within n) (hout : Known b.pulled n out.toList) :
    (inflateFrom fuel mode b out).Fits 0 n := by
  induction fuel generalizing mode b out with
  | zero => exact hout.fits nofun
  | succ fuel ih =>
    have hstep := leads_readStep hmode hb
    rw [inflateFrom]
    split
    · next ending hread => exact hout.fits fun k hk => hstep.2 ending k hread hk
    · next action mode' c hread =>
      obtain ⟨hc, hle, hmode', hstored⟩ := hstep.1 _ c hread
      have hpulled : b.pulled ≤ c.pulled := hb.pulled_le_pulled hc hle
      have hlast := hc.pulled_le
      cases action with
      | nothing => exact ih hmode' hc (hout.mono hpulled)
      | literal x =>
        exact ih hmode' hc (hout.push hpulled (Nat.le_refl _) (Nat.le_succ _) hlast)
      | stored x =>
        -- a stored byte waits in front of itself
        have hnext := hstored x rfl
        refine ih hmode' hc (hout.push ?_ ?_ ?_ hlast)
        all_goals
          dsimp only
          omega
      | copy length distance =>
        dsimp only
        split
        · refine hout.fits fun k hk => ?_
          cases hk
          exact ⟨hpulled, hlast⟩
        · exact ih hmode' hc ((hout.mono hpulled).copyBack distance length hlast)

/-- **Decompression fits.** -/
theorem fits_inflate (bs : Bytes) : (inflate bs).Fits 0 bs.length :=
  fits_inflateFrom _ trivial (Bits.within_ofBytes bs) (.nil _ _)

namespace Flow

variable {f : Flow} {used total input room : Nat} {p : Progress}

/-! ### Running -/

/-- Taking bytes takes those at the front, until there is no more room or the next one is not
known. -/
theorem take_eq (input room : Nat) (rs : List Ready) (out : Array UInt8) :
    ∃ taken rest, rs = taken ++ rest ∧
      take input room rs out =
        (out ++ (taken.map Ready.byte).toArray, room - taken.length, rest) ∧
      taken.length ≤ room ∧ (taken.length = room ∨ ∀ r ∈ rest.head?, input < r.needs) := by
  induction room generalizing rs out with
  | zero =>
    refine ⟨[], rs, rfl, ?_, Nat.le_refl 0, .inl rfl⟩
    simp [take]
  | succ room ih =>
    cases rs with
    | nil =>
      refine ⟨[], [], rfl, ?_, Nat.zero_le _, .inr nofun⟩
      simp [take]
    | cons r rs =>
      rw [take]
      split
      · next hknown =>
        obtain ⟨taken, rest, hrs, htake, hle, hnext⟩ := ih rs (out.push r.byte)
        refine ⟨r :: taken, rest, congrArg _ hrs, ?_, Nat.succ_le_succ hle,
          hnext.imp_left (congrArg Nat.succ)⟩
        rw [htake]
        simp
      · next hunknown =>
        refine ⟨[], r :: rs, rfl, by simp, Nat.zero_le _, .inr ?_⟩
        rintro _ ⟨⟩
        exact Nat.lt_of_not_le hunknown

/-- What a run of a decompressor with so much input leaves: the next bytes are taken, and the rest
still fits. No more input waits than before. A run that does not end the data takes some, or uses up
all input; the data end where the compressed data are finished. -/
structure Runs (used total input : Nat) (f : Flow) (p : Progress) : Prop where
  bytes_eq : f.bytes = p.output ++ p.rest.bytes
  ending_eq : p.rest.ending = f.ending
  waiting_le : input - p.used ≤ input - used
  fits : p.rest.Fits p.used total
  at_end : p.finished = true → p.rest.ready = [] ∧ ∃ needs, f.ending = .finished needs
  gets_on : p.finished = false → p.output ≠ [] ∨ p.used = input

/-- What is left when some bytes at the front are taken still fits, up to where it waits. -/
theorem Fits.drop {taken rest : List Ready} (hf : f.Fits used total)
    (hready : f.ready = taken ++ rest) {later : Nat} (hlater : ∀ r ∈ rest, later ≤ r.held)
    (hending : ∀ k, f.ending.needs? = some k → later ≤ k) :
    Fits later total ⟨rest, f.ending⟩ := by
  have hmem : ∀ r ∈ rest, r ∈ f.ready := fun r hr => hready ▸ List.mem_append_right taken hr
  refine ⟨hlater, fun r hr => hf.needs_le_held r (hmem r hr),
    fun r hr => hf.needs_le_total r (hmem r hr), ?_, fun k hk => ?_,
    fun k hk r hr => hf.held_le_ending k hk r (hmem r hr)⟩
  · have hordered := hf.ordered
    rw [hready] at hordered
    exact (List.pairwise_append.mp hordered).2.1
  · exact ⟨hending k hk, (hf.ending_le k hk).2⟩

/-- Where the next byte waits, all that is left waits. -/
theorem Fits.held_le {taken rest : List Ready} {r : Ready} (hf : f.Fits used total)
    (hready : f.ready = taken ++ r :: rest) : ∀ s ∈ r :: rest, r.held ≤ s.held := by
  have hordered := hf.ordered
  rw [hready] at hordered
  obtain ⟨hfirst, -⟩ := List.pairwise_cons.mp (List.pairwise_append.mp hordered).2.1
  intro s hs
  rcases List.mem_cons.mp hs with rfl | hs
  · exact Nat.le_refl _
  · exact hfirst s hs

/-- What is taken is the output of a run. -/
theorem taken_of_run {taken : List Ready} {rest : List Ready} {roomLeft : Nat}
    (htake : take input room f.ready #[] = ((taken.map Ready.byte).toArray, roomLeft, rest))
    (h : f.run input room = .ok p) :
    p.output = taken.map Ready.byte ∧ p.rest = ⟨rest, f.ending⟩ := by
  rw [run, htake] at h
  simp only at h
  repeat' split at h
  all_goals
    cases h
    try exact ⟨rfl, rfl⟩

/-- A run takes no more than there is room for. -/
theorem length_output_le (h : f.run input room = .ok p) : p.output.length ≤ room := by
  obtain ⟨taken, rest, -, htake, hle, -⟩ := take_eq input room f.ready #[]
  rw [Array.empty_append] at htake
  rw [(taken_of_run htake h).1, List.length_map]
  exact hle

/-- A run that takes all bytes uses up its input and waits for more, or comes to the end of the
data, or would have to copy what is not there and has no room for it. -/
theorem run_cases {taken : List Ready} {roomLeft : Nat}
    (htake : take input room f.ready #[] = ((taken.map Ready.byte).toArray, roomLeft, []))
    (h : f.run input room = .ok p) : p.rest = ⟨[], f.ending⟩ ∧
      ((p.finished = false ∧ p.used = input ∧ ∀ k, f.ending.needs? = some k → input < k) ∨
        (p.finished = true ∧ f.ending = .finished p.used) ∨
        (p.finished = false ∧ f.ending = .tooFar p.used ∧ roomLeft = 0)) := by
  refine ⟨(taken_of_run htake h).2, ?_⟩
  rw [run, htake] at h
  simp only at h
  -- an ending that does not show yet lets the run wait
  have hwaits : ∀ k, f.ending.needs? = some k → ¬k ≤ input → p.finished = false → p.used = input →
      (p.finished = false ∧ p.used = input ∧ ∀ k, f.ending.needs? = some k → input < k) := by
    refine fun k hk hunknown hfinished hused => ⟨hfinished, hused, fun l hl => ?_⟩
    obtain rfl : k = l := Option.some.inj (hk.symm.trans hl)
    exact Nat.lt_of_not_le hunknown
  cases hending : f.ending with
  | starved =>
    rw [hending] at h
    cases h
    exact .inl ⟨rfl, rfl, nofun⟩
  | finished needs =>
    rw [hending] at h hwaits
    simp only at h
    split at h
    · cases h
      exact .inr (.inl ⟨rfl, rfl⟩)
    · next hunknown =>
      cases h
      exact .inl (hwaits needs rfl hunknown rfl rfl)
  | fault why needs =>
    rw [hending] at h hwaits
    simp only at h
    split at h
    · cases h
    · next hunknown =>
      cases h
      exact .inl (hwaits needs rfl hunknown rfl rfl)
  | tooFar needs =>
    rw [hending] at h hwaits
    simp only at h
    split at h
    · split at h
      · next hfull =>
        cases h
        exact .inr (.inr ⟨rfl, rfl, hfull⟩)
      · cases h
    · next hunknown =>
      cases h
      exact .inl (hwaits needs rfl hunknown rfl rfl)

theorem runs_run (hf : f.Fits used total) (hroom : 0 < room) (h : f.run input room = .ok p) :
    Runs used total input f p := by
  obtain ⟨taken, rest, hready, htake, hle, hnext⟩ := take_eq input room f.ready #[]
  rw [Array.empty_append] at htake
  obtain ⟨houtput, hrest⟩ := taken_of_run htake h
  have hbytes : f.bytes = p.output ++ p.rest.bytes := by
    rw [houtput, hrest, bytes, hready, List.map_append]
    rfl
  have hkept : p.rest.ending = f.ending := by rw [hrest]
  -- a run that fills its room takes something
  have hfull : taken.length = room → p.output ≠ [] := by
    intro hlength hnil
    rw [houtput, List.map_eq_nil_iff] at hnil
    rw [hnil] at hlength
    exact Nat.ne_of_lt hroom hlength
  cases rest with
  | cons r rest =>
    have hr : r ∈ f.ready := hready ▸ List.mem_append_right taken List.mem_cons_self
    have hheld := hf.held_le hready
    have hneeds := hf.needs_le_held r hr
    have hused := hf.used_le_held r hr
    rw [run, htake] at h
    cases h
    have hlater : (if r.needs ≤ input then r.held else input) ≤ r.held := by
      split <;> omega
    refine ⟨hbytes, rfl, ?_, ?_, nofun, fun _ => ?_⟩
    · dsimp only
      split <;> omega
    · refine hf.drop hready (fun s hs => Nat.le_trans hlater (hheld s hs)) fun k hk => ?_
      exact Nat.le_trans hlater (hf.held_le_ending k hk r hr)
    · exact hnext.imp hfull fun hunknown => if_neg (Nat.not_le.mpr (hunknown r rfl))
  | nil =>
    have hover : p.rest.ready = [] := by rw [hrest]
    have hfits : (∀ k, f.ending.needs? = some k → p.used ≤ k) → p.rest.Fits p.used total := by
      rw [hrest]
      exact hf.drop hready nofun
    -- where the ending shows, what it needs has been used
    have hshown : f.ending.needs? = some p.used →
        input - p.used ≤ input - used ∧ p.rest.Fits p.used total := by
      intro hk
      have hneeds := (hf.ending_le p.used hk).1
      refine ⟨by omega, hfits fun k hk' => ?_⟩
      exact Nat.le_of_eq (Option.some.inj (hk.symm.trans hk'))
    rcases (run_cases htake h).2 with ⟨hfinished, hinput, hlater⟩ | ⟨hfinished, hending⟩ |
      ⟨hfinished, hending, hroomLeft⟩
    · refine ⟨hbytes, hkept, ?_, hfits fun k hk => hinput ▸ Nat.le_of_lt (hlater k hk),
        fun h => ?_, fun _ => .inr hinput⟩
      · omega
      · exact absurd (h.symm.trans hfinished) (by decide)
    · obtain ⟨hwaiting, hfits⟩ := hshown (by rw [hending]; rfl)
      refine ⟨hbytes, hkept, hwaiting, hfits, fun _ => ⟨hover, _, hending⟩, fun h => ?_⟩
      exact absurd (h.symm.trans hfinished) (by decide)
    · obtain ⟨hwaiting, hfits⟩ := hshown (by rw [hending]; rfl)
      refine ⟨hbytes, hkept, hwaiting, hfits, fun h => ?_, fun _ => .inl (hfull ?_)⟩
      · exact absurd (h.symm.trans hfinished) (by decide)
      · omega

theorem isDamage_of_run {why : Fault} (h : f.run input room = .error why) :
    f.ending.IsDamage := by
  rw [run] at h
  simp only at h
  split at h
  · cases h
  · split at h
    · cases h
    · next hending =>
      rw [hending]
      trivial
    · next hending =>
      rw [hending]
      trivial
    · cases h

/-- With all input as many bytes are taken as there is room for. -/
theorem Fits.take_all (hf : f.Fits used total) (htotal : total ≤ input) (room : Nat) : ∃ taken rest,
    f.ready = taken ++ rest ∧ take input room f.ready #[] =
        ((taken.map Ready.byte).toArray, room - taken.length, rest) ∧
      (taken.length = room ∨ rest = []) := by
  obtain ⟨taken, rest, hready, htake, -, hnext⟩ := take_eq input room f.ready #[]
  refine ⟨taken, rest, hready, by rw [htake, Array.empty_append],
    hnext.imp_right fun hunknown => ?_⟩
  cases rest with
  | nil => rfl
  | cons r rest =>
    have hneeds := hf.needs_le_total r (hready ▸ List.mem_append_right taken List.mem_cons_self)
    have hlater := hunknown r rfl
    omega

theorem flush_eq (hf : f.Fits used total) (htotal : total ≤ input) :
    f.flush input = (f.bytes, ⟨[], f.ending⟩) := by
  obtain ⟨taken, rest, hready, htake, hnext⟩ := hf.take_all htotal f.ready.length
  have hrest : rest = [] := by
    refine hnext.elim (fun hfull => List.eq_nil_of_length_eq_zero ?_) id
    rw [hready, List.length_append] at hfull
    omega
  rw [hrest, List.append_nil] at hready
  rw [flush, htake, hrest, bytes, hready]

/-- With all input a run fills its room, or takes everything and sees the end of the data. -/
theorem full_or_over (hf : f.Fits used total) (htotal : total ≤ input)
    (h : f.run input room = .ok p) : p.output.length = room ∨
      p.rest.ready = [] ∧ ((∃ needs, f.ending = .finished needs) → p.finished = true) := by
  obtain ⟨taken, rest, hready, htake, hfull | rfl⟩ := hf.take_all htotal room
  · left
    rw [(taken_of_run htake h).1, List.length_map]
    exact hfull
  · right
    obtain ⟨hrest, hcases⟩ := run_cases htake h
    refine ⟨by rw [hrest], fun ⟨needs, hending⟩ => ?_⟩
    have hk : f.ending.needs? = some needs := by rw [hending]; rfl
    rcases hcases with ⟨-, -, hlater⟩ | ⟨hfinished, -⟩ | ⟨-, htooFar, -⟩
    · have hlate := hlater needs hk
      have hshows := (hf.ending_le needs hk).2
      omega
    · exact hfinished
    · rw [hending] at htooFar
      cases htooFar

/-- With all input a run does not come to the end of data for which it has no room. -/
theorem full_of_run (hf : f.Fits used total) (htotal : total ≤ input) (hroom : 0 < room)
    (hmuch : room < f.bytes.length) (h : f.run input room = .ok p) :
    p.output.length = room ∧ p.finished = false := by
  have hruns := runs_run hf hroom h
  have hsome : p.rest.ready ≠ [] := by
    intro hnil
    have hbytes := congrArg List.length hruns.bytes_eq
    have hle := length_output_le h
    rw [List.length_append, bytes, bytes, hnil, List.map_nil, List.length_nil] at hbytes
    rw [bytes] at hmuch
    omega
  refine ⟨(full_or_over hf htotal h).resolve_right fun hover => hsome hover.1, ?_⟩
  exact Bool.eq_false_iff.mpr fun hfinished => hsome (hruns.at_end hfinished).1

/-- A run with all input and more room than is needed sees damage. -/
theorem not_isDamage_of_run (hf : f.Fits used total) (htotal : total ≤ input)
    (hroom : f.ready.length < room) (h : f.run input room = .ok p) : ¬f.ending.IsDamage := by
  obtain ⟨taken, rest, hready, htake, hfull | rfl⟩ := hf.take_all htotal room
  · rw [hready, List.length_append, hfull] at hroom
    omega
  rw [List.append_nil] at hready
  obtain ⟨-, hcases⟩ := run_cases htake h
  rcases hcases with ⟨-, -, hlater⟩ | ⟨-, hending⟩ | ⟨-, -, hroomLeft⟩
  · intro hdamage
    obtain ⟨k, hk⟩ : ∃ k, f.ending.needs? = some k := by
      cases hending : f.ending with
      | starved =>
        rw [hending] at hdamage
        exact hdamage.elim
      | _ => exact ⟨_, rfl⟩
    have hlate := hlater k hk
    have hshows := (hf.ending_le k hk).2
    omega
  · rw [hending]
    exact id
  · rw [hready] at hroom
    omega

end Flow

end EntryRef.Deflate
