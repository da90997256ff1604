import EntryRef.Proofs.Deflate.Inflate
import EntryRef.Zip.Reading

/-!
# The content of members

`Reader.content` is what a reader has still to give. A step gives the first part of it and leaves
the rest, and the last step leaves nothing, whatever has been asked for (`Reader.steps_step`). It
fails at the end of the file, or where the compressed data are damaged, or where all data have not
the check that they should have (`Reader.cause_of_step`).

A decompressor that holds data back may be left with some of them where its input is used up and is
not at its end. Only a reader that is `Reader.Even` is sure to give all of its content; any other
gives the first of it, and how much that is depends on the pieces that are asked for.
-/

namespace EntryRef

/-! ### Checks -/

namespace Crc32

@[simp]
theorem update_nil (c : UInt32) : update c [] = c := by
  rw [update, List.foldl_nil, UInt32.xor_assoc, UInt32.xor_self, UInt32.xor_zero]

/-- Data may be taken into account one part after the other. -/
theorem update_append (c : UInt32) (as bs : Bytes) :
    update c (as ++ bs) = update (update c as) bs := by
  simp only [update, List.foldl_append, UInt32.xor_assoc, UInt32.xor_self, UInt32.xor_zero]

end Crc32

namespace Zip.Reader

open Deflate (Flow)

variable {r s t : Reader} {n : Nat} {data : Bytes} {e : Fault}

/-! ### States -/

/-- The compressed data that the file has, with those that a decompressor has been fed. -/
def supply (r : Reader) (fed : List Bytes) : Bytes := input fed ++ r.file.take r.compressedLeft

/-- The data that come of the file, without regard to the member's size. -/
def ahead (r : Reader) : Bytes :=
  match r.form with
  | .stored => r.file.take r.compressedLeft
  | .deflated flow => flow.bytes
  | .packed u fed => (u.plain (r.supply fed)).drop (u.feed.total fed).length

/-- The data that are still to be read from the file. -/
def content (r : Reader) : Bytes := if r.ended then [] else r.ahead.take r.left

/-- The data that are still to be given. -/
def upcoming (r : Reader) : Bytes := r.pending ++ r.content

/-- The check of all data, once they will have been read. -/
def check (r : Reader) : UInt32 := Crc32.update r.crc r.content

/-- The number of compressed bytes that the file has, read or not. -/
def available (r : Reader) : Nat := r.pulled + min r.compressedLeft r.file.length

/-- What the decompressor gives comes of the compressed bytes that the file has, and it goes on
until the data are over. -/
def Started (r : Reader) : Prop :=
  match r.form with
  | .stored => True
  | .deflated flow => flow.Fits r.used r.available
  | .packed u fed => r.ended = false → u.feed.Open fed

/-- The decompressor holds nothing back, or the compressed data come to their end, so that it has to
give everything. -/
def Even (r : Reader) : Prop :=
  match r.form with
  | .stored | .deflated _ => True
  | .packed u fed => u.Eager ∨ u.Ends (r.supply fed)

/-- The reader gives all of its content, whatever is asked for. -/
structure Proper (r : Reader) : Prop where
  started : r.Started
  even : r.Even

/-- The file has all compressed bytes. -/
def Complete (r : Reader) : Prop := r.compressedLeft ≤ r.file.length

/-- The compressed data are finished in the end. -/
def Finishes (r : Reader) : Prop :=
  match r.form with
  | .stored => False
  | .deflated flow => ∃ needs, flow.ending = .finished needs
  | .packed u fed => u.Ends (r.supply fed)

/-- The compressed data are damaged in the end. -/
def Damaged (r : Reader) : Prop :=
  match r.form with
  | .stored => False
  | .deflated flow => flow.ending.IsDamage
  | .packed u fed => u.Damaged (r.supply fed)

/-- The ways in which data are written. -/
inductive Way
  | stored
  | deflated
  | packed
deriving DecidableEq

/-- The way in which the data are written. -/
def way (r : Reader) : Way :=
  match r.form with
  | .stored => .stored
  | .deflated _ => .deflated
  | .packed .. => .packed

/-! ### Reading from the file -/

/-- Some bytes have been read from the file. -/
structure Pulls (r : Reader) (data : Bytes) (s : Reader) : Prop where
  file_eq : r.file = data ++ s.file
  compressedLeft_eq : r.compressedLeft = data.length + s.compressedLeft
  pulled_eq : s.pulled = r.pulled + data.length
  rest_eq : s = { r with file := s.file, compressedLeft := s.compressedLeft, pulled := s.pulled }

/-- Nothing has been read. -/
theorem Pulls.refl (r : Reader) : Pulls r [] r :=
  ⟨rfl, (Nat.zero_add _).symm, rfl, rfl⟩

theorem Pulls.available_eq (h : Pulls r data s) : s.available = r.available := by
  have hfile := congrArg List.length h.file_eq
  have hleft := h.compressedLeft_eq
  have hpulled := h.pulled_eq
  rw [List.length_append] at hfile
  unfold available
  omega

theorem Pulls.complete_iff (h : Pulls r data s) : s.Complete ↔ r.Complete := by
  have hfile := congrArg List.length h.file_eq
  have hleft := h.compressedLeft_eq
  rw [List.length_append] at hfile
  unfold Complete
  omega

/-- Reading from the file gives something, unless all compressed bytes have been read. -/
theorem pulls_pull (h : r.pull n = .ok (data, s)) :
    Pulls r data s ∧ (data = [] → r.compressedLeft = 0) := by
  unfold pull at h
  split at h
  · next hleft =>
    cases h
    exact ⟨.refl r, fun _ => hleft⟩
  · dsimp only at h
    split at h
    · cases h
    next hne =>
    cases h
    have hlength : (r.file.take (min (max n leastRead) r.compressedLeft)).length ≤
        r.compressedLeft := by
      rw [List.length_take]
      omega
    refine ⟨⟨?_, ?_, rfl, rfl⟩, fun h => absurd (List.isEmpty_iff.mpr h) hne⟩
    · exact (List.take_append_drop _ _).symm
    · dsimp only
      omega

/-- Reading from the file fails only at its end. -/
theorem file_of_pull (h : r.pull n = .error e) :
    e = .endOfData ∧ r.file = [] ∧ ¬r.Complete := by
  unfold pull at h
  split at h
  · cases h
  next hleft =>
  dsimp only at h
  split at h
  · next hempty =>
    cases h
    have hcount : min (max n leastRead) r.compressedLeft ≠ 0 := by
      have : 0 < leastRead := by decide
      omega
    rw [List.isEmpty_iff, List.take_eq_nil_iff] at hempty
    have hfile := hempty.resolve_left hcount
    refine ⟨rfl, hfile, fun hcomplete => hleft ?_⟩
    rw [Complete, hfile] at hcomplete
    exact Nat.le_zero.mp hcomplete
  · cases h

/-- Gathering reads from the file, unless enough has been read before. -/
private theorem pulls_gather (h : r.gather n = .ok s) :
    ∃ data, Pulls r data s ∧ (data = [] → r.compressedLeft = 0 ∨ n ≤ r.pulled - r.used) := by
  unfold gather at h
  dsimp only at h
  split at h
  · cases hp : r.pull (n - (r.pulled - r.used)) with
    | error e =>
      rw [hp] at h
      cases h
    | ok q =>
      rw [hp] at h
      cases h
      obtain ⟨hpulls, hempty⟩ := pulls_pull hp
      exact ⟨q.1, hpulls, fun h => .inl (hempty h)⟩
  · next hwaiting =>
    cases h
    exact ⟨[], .refl _, fun _ => .inr (Nat.le_of_not_lt hwaiting)⟩

/-- Gathering fails only at the end of the file. -/
private theorem file_of_gather (h : r.gather n = .error e) :
    e = .endOfData ∧ r.file = [] ∧ ¬r.Complete := by
  unfold gather at h
  dsimp only at h
  split at h
  · cases hp : r.pull (n - (r.pulled - r.used)) with
    | error e' =>
      rw [hp] at h
      cases h
      exact file_of_pull hp
    | ok q =>
      rw [hp] at h
      cases h
  · cases h

/-! ### Reading in the way that the data are written in -/

/-- What reading keeps: the way in which the data are written, and how they end. -/
structure Keeps (r s : Reader) : Prop where
  way_eq : s.way = r.way
  even_iff : s.Even ↔ r.Even
  finishes_iff : s.Finishes ↔ r.Finishes
  damaged_iff : s.Damaged ↔ r.Damaged
  complete_iff : s.Complete ↔ r.Complete

theorem Keeps.trans (h : Keeps r s) (h' : Keeps s t) : Keeps r t :=
  ⟨h'.way_eq.trans h.way_eq, h'.even_iff.trans h.even_iff, h'.finishes_iff.trans h.finishes_iff,
    h'.damaged_iff.trans h.damaged_iff, h'.complete_iff.trans h.complete_iff⟩

/-- What is read for a request of `n` bytes before it is taken into account: the first part of the
data that come of the file. Where they are over no part of the file is missing, and nothing is left
unless it is held back. -/
structure Advances (n : Nat) (r : Reader) (data : Bytes) (s : Reader) : Prop where
  started : s.Started
  keeps : Keeps r s
  ahead_eq : r.ahead = data ++ s.ahead
  at_end : s.ended = true → (r.Even → s.ahead = []) ∧ (s.Complete ∨ s.Finishes)
  less : s.ended = true ∨ s.stepsLeft < r.stepsLeft
  left_eq : s.left = r.left
  crc_eq : s.crc = r.crc
  expected_eq : s.expected = r.expected
  /-- At the end of the file all is given that there is, or as much as has been asked for where only
  so much is decompressed. -/
  exhausted : r.Even → s.file = [] → s.ended = true ∨ s.Complete ∨
    s.way = .deflated ∧ n ≤ data.length ∨ s.ahead = [] ∧ ¬s.Finishes

/-! #### Stored data -/

/-- Stored data are given as they are read, and end with the compressed bytes. -/
theorem stored_eq_ok (h : r.stored n = .ok (data, s)) :
    ∃ t, r.pull n = .ok (data, t) ∧ s = { t with ended := t.compressedLeft = 0 } := by
  unfold stored at h
  split at h
  · cases h
  next got t hpull =>
  cases h
  exact ⟨t, hpull, rfl⟩

private theorem advances_stored (hform : r.form = .stored) (h : r.stored n = .ok (data, s)) :
    Advances n r data s := by
  obtain ⟨t, hpull, rfl⟩ := stored_eq_ok h
  obtain ⟨hpulls, hempty⟩ := pulls_pull hpull
  have hleft := hpulls.compressedLeft_eq
  have hpulled := hpulls.pulled_eq
  have ht := hpulls.rest_eq
  have htform : t.form = .stored := by rw [ht, hform]
  refine ⟨?_, ⟨?_, ?_, ?_, ?_, hpulls.complete_iff⟩, ?_, fun hended => ?_, ?_, ?_, ?_, ?_,
    fun _ hfile => .inr (.inr (.inr ⟨?_, ?_⟩))⟩
  · simp only [Started, htform]
  · simp only [way, hform, htform]
  · simp only [Even, hform, htform]
  · simp only [Finishes, hform, htform]
  · simp only [Damaged, hform, htform]
  · simp only [ahead, hform, htform, hpulls.file_eq]
    rw [hleft, List.take_length_add_append]
  · have hzero : t.compressedLeft = 0 := of_decide_eq_true hended
    refine ⟨fun _ => ?_, .inl ?_⟩
    · simp only [ahead, htform, hzero, List.take_zero]
    · simp only [Complete, hzero, Nat.zero_le]
  · by_cases hdata : data = []
    · refine .inl (decide_eq_true ?_)
      have hzero := hempty hdata
      omega
    · have hlength := List.length_pos_iff.mpr hdata
      have hused : t.used = r.used := by rw [ht]
      right
      simp only [stepsLeft, hform, htform]
      omega
  · rw [ht]
  · rw [ht]
  · rw [ht]
  · have htfile : t.file = [] := hfile
    simp only [ahead, htform, htfile, List.take_nil]
  · simp only [Finishes, htform, not_false_eq_true]

/-- Reading stored data fails only at the end of the file. -/
private theorem file_of_stored (h : r.stored n = .error e) :
    e = .endOfData ∧ r.file = [] ∧ ¬r.Complete := by
  unfold stored at h
  split at h
  · next hpull =>
    cases h
    exact file_of_pull hpull
  · cases h

/-! #### Deflated data -/

/-- Deflated data are gathered, and decompressed as far as they are asked for. -/
theorem compressed_eq_ok {flow : Flow} (h : r.compressed flow n = .ok (data, s)) :
    ∃ t p, r.gather n = .ok t ∧ flow.run t.pulled (max n leastRead) = .ok p ∧
      t.decompressed p = (data, s) := by
  unfold compressed at h
  split at h
  · cases h
  next t hgather =>
  split at h
  · cases h
  next p hrun => exact ⟨t, p, hgather, hrun, Except.ok.inj h⟩

/-- Behind a run of the decompressor the data are finished; or all compressed bytes are used, and
what the decompressor holds is taken; or there may be more. -/
theorem decompressed_cases {p : Flow.Progress} (h : r.decompressed p = (data, s)) :
    (p.finished = true ∧ data = p.output ∧
      s = { r with used := p.used, form := .deflated p.rest, ended := true }) ∨
    (p.finished = false ∧ r.compressedLeft = 0 ∧ p.used = r.pulled ∧
      data = p.output ++ (p.rest.flush r.pulled).1 ∧
      s = { r with used := p.used, form := .deflated (p.rest.flush r.pulled).2, ended := true }) ∨
    (p.finished = false ∧ ¬(r.compressedLeft = 0 ∧ p.used = r.pulled) ∧ data = p.output ∧
      s = { r with used := p.used, form := .deflated p.rest }) := by
  unfold decompressed at h
  dsimp only at h
  split at h
  · next hfinished =>
    cases h
    exact .inl ⟨hfinished, rfl, rfl⟩
  next hgoes =>
  rw [Bool.not_eq_true] at hgoes
  split at h
  · next hover =>
    rw [Bool.and_eq_true, decide_eq_true_iff, decide_eq_true_iff] at hover
    cases h
    exact .inr (.inl ⟨hgoes, hover.1, hover.2, rfl, rfl⟩)
  · next hmore =>
    rw [Bool.and_eq_true, decide_eq_true_iff, decide_eq_true_iff] at hmore
    cases h
    exact .inr (.inr ⟨hgoes, hmore, rfl, rfl⟩)

/-- Whatever is done with the decompressor, what it gives and what it leaves are the data that come
of the file. -/
theorem Pulls.advances {got : Bytes} {flow rest : Flow} {used : Nat} {ended : Bool}
    (hpulls : Pulls r got t) (hform : r.form = .deflated flow)
    (hfits : rest.Fits used t.available) (hending : rest.ending = flow.ending)
    (hbytes : flow.bytes = data ++ rest.bytes)
    (hs : s = { t with used := used, form := .deflated rest, ended := ended })
    (hover : ended = true → rest.ready = [] ∧ (s.Complete ∨ s.Finishes))
    (hless : ended = true ∨ s.stepsLeft < r.stepsLeft)
    (hexhausted : s.file = [] → ended = true ∨ n ≤ data.length ∨ rest.ready = [] ∧ ¬s.Finishes) :
    Advances n r data s := by
  have ht := hpulls.rest_eq
  subst hs
  refine ⟨hfits, ⟨?_, ?_, ?_, ?_, hpulls.complete_iff⟩, ?_, fun h => ⟨fun _ => ?_, (hover h).2⟩,
    hless, ?_, ?_, ?_, fun _ hfile => (hexhausted hfile).imp_right fun h =>
      .inr (h.imp (fun hfull => ⟨rfl, hfull⟩) fun h => ⟨?_, h.2⟩)⟩
  · simp only [way, hform]
  · simp only [Even, hform]
  · simp only [Finishes, hform, hending]
  · simp only [Damaged, hform, hending]
  · simp only [ahead, hform]
    exact hbytes
  · simp only [ahead, Flow.bytes, (hover h).1, List.map_nil]
  · rw [ht]
  · rw [ht]
  · rw [ht]
  · simp only [ahead, Flow.bytes, h.1, List.map_nil]

private theorem advances_compressed {flow : Flow} (hr : r.Started) (hended : r.ended = false)
    (hform : r.form = .deflated flow) (hn : n ≠ 0) (h : r.compressed flow n = .ok (data, s)) :
    Advances n r data s := by
  obtain ⟨t, p, hgather, hrun, hresult⟩ := compressed_eq_ok h
  obtain ⟨got, hpulls, hempty⟩ := pulls_gather hgather
  simp only [Started, hform] at hr
  have hfits : flow.Fits r.used t.available := hpulls.available_eq ▸ hr
  have hroom : 0 < max n leastRead := Nat.lt_of_lt_of_le (by decide) (Nat.le_max_right _ _)
  have hruns := Flow.runs_run hfits hroom hrun
  rcases decompressed_cases hresult with
    ⟨hfinished, rfl, hs⟩ | ⟨hgoes, hleft, hused, rfl, hs⟩ | ⟨hgoes, hmore, rfl, hs⟩
  · obtain ⟨hready, needs, hending⟩ := hruns.at_end hfinished
    refine hpulls.advances hform hruns.fits hruns.ending_eq hruns.bytes_eq hs
      (fun _ => ⟨hready, .inr ?_⟩) (.inl rfl) fun _ => .inl rfl
    rw [hs]
    exact ⟨needs, hruns.ending_eq.trans hending⟩
  · have htotal : t.available ≤ t.pulled := by
      unfold available
      omega
    rw [Flow.flush_eq hruns.fits htotal] at hs ⊢
    have hrest : Flow.Fits p.used t.available ⟨[], p.rest.ending⟩ :=
      hruns.fits.drop (List.append_nil _).symm (fun _ h => absurd h List.not_mem_nil)
        fun k hk => (hruns.fits.ending_le k hk).1
    refine hpulls.advances hform hrest hruns.ending_eq ?_ hs (fun _ => ⟨rfl, .inl ?_⟩) (.inl rfl)
      fun _ => .inl rfl
    · rw [hruns.bytes_eq]
      exact (List.append_nil _).symm
    · rw [hs]
      simp only [Complete, hleft, Nat.zero_le]
  have ht := hpulls.rest_eq
  have htended : t.ended = false := by rw [ht, hended]
  have htused : t.used = r.used := by rw [ht]
  have hsended : s = { t with used := p.used, form := .deflated p.rest, ended := t.ended } := hs
  refine hpulls.advances hform hruns.fits hruns.ending_eq hruns.bytes_eq hsended
    (fun h => absurd (htended.symm.trans h) (by decide)) (.inr ?_) fun hfile => .inr ?_
  · have hleft := hpulls.compressedLeft_eq
    have hpulled := hpulls.pulled_eq
    have hready := congrArg List.length hruns.bytes_eq
    rw [List.length_append, Flow.bytes, Flow.bytes, List.length_map, List.length_map] at hready
    have hwaiting := hruns.waiting_le
    rw [hs]
    simp only [stepsLeft, hform]
    -- either something has been read or decompressed, or what has been waiting is used up
    by_cases hgot : got = []
    · have hlength := congrArg List.length hgot
      rw [List.length_nil] at hlength
      rcases hruns.gets_on hgoes with hdata | hused
      · have houtput := List.length_pos_iff.mpr hdata
        omega
      · have hcompressed : t.compressedLeft ≠ 0 := fun hzero => hmore ⟨hzero, hused⟩
        have := hempty hgot
        omega
    · have hlength := List.length_pos_iff.mpr hgot
      omega
  · have htfile : t.file = [] := by rw [hs] at hfile; exact hfile
    have htotal : t.available ≤ t.pulled := by
      simp only [available, htfile, List.length_nil, Nat.min_zero, Nat.add_zero, Nat.le_refl]
    refine (Flow.full_or_over hfits htotal hrun).imp (fun hfull => ?_) fun hover => ⟨hover.1, ?_⟩
    · rw [hfull]
      exact Nat.le_max_left _ _
    · rw [hs]
      rintro ⟨needs, hending⟩
      have hfinished := hover.2 ⟨needs, hruns.ending_eq.symm.trans hending⟩
      exact absurd (hfinished.symm.trans hgoes) (by decide)

/-- Reading deflated data fails at the end of the file, or where they are damaged. -/
private theorem cause_of_compressed {flow : Flow} (hform : r.form = .deflated flow)
    (h : r.compressed flow n = .error e) :
    e = .endOfData ∧ r.file = [] ∧ ¬r.Complete ∨ (∃ why, e = .compression why) ∧ r.Damaged := by
  unfold compressed at h
  split at h
  · next hgather =>
    cases h
    exact .inl (file_of_gather hgather)
  split at h
  · next why hrun =>
    cases h
    refine .inr ⟨⟨why, rfl⟩, ?_⟩
    simp only [Damaged, hform]
    exact Flow.isDamage_of_run hrun
  · cases h

/-! #### Data that are packed by another method -/

/-- Packed data are given as the decompressor answers to what has been read. -/
theorem unpacked_eq_ok {u : Unpacker} {fed : List Bytes}
    (h : r.unpacked u fed n = .ok (data, s)) :
    ∃ piece t last, r.pull n = .ok (piece, t) ∧ u.feed fed piece = .ok (data, last) ∧
      s = { t with form := .packed u (piece :: fed), ended := last || t.compressedLeft = 0 } := by
  unfold unpacked at h
  split at h
  · cases h
  next piece t hpull =>
  split at h
  · cases h
  next got last hfeed =>
  cases h
  exact ⟨piece, t, last, hpull, hfeed, rfl⟩

/-- What a decompressor answers to a piece is the next of the data, however the compressed data go
on. Nothing is left if they are over, or if the decompressor holds nothing back and they do not go
on. -/
private theorem exists_plain_eq {u : Unpacker} {fed : List Bytes} {piece bs : Bytes} {last : Bool}
    (hopen : u.feed.Open fed) (hfeed : u.feed fed piece = .ok (data, last))
    (hinput : input (piece :: fed) <+: bs) :
    ∃ rest, u.plain bs = u.feed.total fed ++ data ++ rest ∧
      (last = true ∨ u.Eager ∧ bs = input (piece :: fed) → rest = []) := by
  obtain ⟨rest, hrest⟩ := (u.given hopen hfeed).trans (u.plain_mono hinput)
  refine ⟨rest, hrest.symm, fun h => ?_⟩
  have hall : u.feed.total fed ++ data = u.plain bs := by
    rcases h with rfl | ⟨heager, rfl⟩
    · rw [(u.ends_mono hinput ((u.last_iff hopen hfeed).mp rfl)).2]
      exact u.complete hopen hfeed
    · exact (heager hopen hfeed).1
  rw [← hall] at hrest
  exact List.append_right_eq_self.mp hrest

/-- What is fed to the decompressor is taken from what there is for it. -/
theorem Pulls.supply_eq {fed : List Bytes} (h : Pulls r data s) :
    s.supply (data :: fed) = r.supply fed := by
  rw [supply, supply, input, input, List.reverse_cons, List.flatten_append, List.flatten_singleton,
    h.file_eq, h.compressedLeft_eq, List.take_length_add_append, List.append_assoc]

/-- At the end of the file all that there is has been fed. -/
theorem supply_eq_input (fed : List Bytes) (h : r.compressedLeft = 0 ∨ r.file = []) :
    r.supply fed = input fed := by
  rw [supply, List.append_right_eq_self, List.take_eq_nil_iff]
  exact h

/-- The next piece has been read from the file, and the decompressor has answered to it. -/
structure Fed (u : Unpacker) (fed : List Bytes) (piece data : Bytes) (last : Bool)
    (r s : Reader) : Prop where
  isOpen : u.feed.Open fed
  feed_eq : u.feed fed piece = .ok (data, last)
  before_eq : r.form = .packed u fed
  after_eq : s.form = .packed u (piece :: fed)
  supply_eq : s.supply (piece :: fed) = r.supply fed

section Fed

variable {u : Unpacker} {fed : List Bytes} {piece : Bytes} {last : Bool}

/-- What has been fed is the first of what there is for the decompressor. -/
theorem Fed.input_prefix (h : Fed u fed piece data last r s) :
    input (piece :: fed) <+: r.supply fed :=
  h.supply_eq ▸ List.prefix_append _ _

theorem Fed.last_iff (h : Fed u fed piece data last r s) :
    last = true ↔ u.Ends (input (piece :: fed)) :=
  u.last_iff h.isOpen h.feed_eq

theorem Fed.finishes_iff (h : Fed u fed piece data last r s) :
    s.Finishes ↔ u.Ends (r.supply fed) := by
  simp only [Finishes, h.after_eq, h.supply_eq]

/-- The answer is the next of what comes of the file. -/
theorem Fed.ahead_eq (h : Fed u fed piece data last r s) : r.ahead = data ++ s.ahead ∧
    (last = true ∨ u.Eager ∧ r.supply fed = input (piece :: fed) → s.ahead = []) := by
  obtain ⟨rest, hplain, hrest⟩ := exists_plain_eq h.isOpen h.feed_eq h.input_prefix
  have hahead : r.ahead = data ++ rest := by
    simp only [ahead, h.before_eq]
    rw [hplain, List.append_assoc, List.drop_left]
  have hsahead : s.ahead = rest := by
    simp only [ahead, h.after_eq, h.supply_eq, Feed.total, h.feed_eq]
    rw [hplain, List.drop_left]
  rw [hsahead]
  exact ⟨hahead, hrest⟩

/-- Where all that there is has been fed, and the compressed data are not over, they do not come to
their end. So a reader that is even has given everything. -/
theorem Fed.used_up (h : Fed u fed piece data last r s) (heven : r.Even)
    (hnone : s.compressedLeft = 0 ∨ s.file = []) (hgoes : last = false) :
    s.ahead = [] ∧ ¬s.Finishes := by
  have hall : r.supply fed = input (piece :: fed) :=
    h.supply_eq.symm.trans (supply_eq_input (piece :: fed) hnone)
  have hends : ¬u.Ends (r.supply fed) := by
    rw [hall, ← h.last_iff, hgoes]
    decide
  simp only [Even, h.before_eq] at heven
  exact ⟨h.ahead_eq.2 (.inr ⟨heven.resolve_right hends, hall⟩), mt h.finishes_iff.mp hends⟩

/-- A decompressor that goes on can be fed the next piece. -/
theorem Fed.started (h : Fed u fed piece data last r s) (hgoes : s.ended = false → last = false) :
    s.Started := by
  simp only [Started, h.after_eq]
  intro hended
  exact ⟨h.isOpen, data, hgoes hended ▸ h.feed_eq⟩

/-- Feeding does not change how the data are written, or how they end. -/
theorem Fed.keeps (h : Fed u fed piece data last r s) (hcomplete : s.Complete ↔ r.Complete) :
    Keeps r s := by
  refine ⟨?_, ?_, ?_, ?_, hcomplete⟩
  · simp only [way, h.before_eq, h.after_eq]
  · simp only [Even, h.before_eq, h.after_eq, h.supply_eq]
  · simp only [Finishes, h.before_eq, h.after_eq, h.supply_eq]
  · simp only [Damaged, h.before_eq, h.after_eq, h.supply_eq]

end Fed

private theorem advances_unpacked {u : Unpacker} {fed : List Bytes} (hr : r.Started)
    (hended : r.ended = false) (hform : r.form = .packed u fed)
    (h : r.unpacked u fed n = .ok (data, s)) : Advances n r data s := by
  obtain ⟨piece, t, last, hpull, hfeed, hs⟩ := unpacked_eq_ok h
  obtain ⟨hpulls, hempty⟩ := pulls_pull hpull
  have ht := hpulls.rest_eq
  have hleft := hpulls.compressedLeft_eq
  have hsended : s.ended = (last || decide (t.compressedLeft = 0)) := by rw [hs]
  have hsleft : s.compressedLeft = t.compressedLeft := by rw [hs]
  simp only [Started, hform] at hr
  have hfed : Fed u fed piece data last r s :=
    ⟨hr hended, hfeed, hform, by rw [hs], by rw [hs]; exact hpulls.supply_eq⟩
  refine ⟨hfed.started fun h => ?_, hfed.keeps ?_, hfed.ahead_eq.1, fun h => ?_, ?_, ?_, ?_, ?_,
    fun heven hfile => ?_⟩
  · rw [hsended, Bool.or_eq_false_iff] at h
    exact h.1
  · rw [hs]
    exact hpulls.complete_iff
  · cases hgoes : last with
    | true =>
      have hends := (u.ends_mono hfed.input_prefix (hfed.last_iff.mp hgoes)).1
      exact ⟨fun _ => hfed.ahead_eq.2 (.inl hgoes), .inr (hfed.finishes_iff.mpr hends)⟩
    | false =>
      rw [hsended, hgoes, Bool.false_or, decide_eq_true_iff, ← hsleft] at h
      refine ⟨fun heven => (hfed.used_up heven (.inl h) hgoes).1, .inl ?_⟩
      rw [Complete, h]
      exact Nat.zero_le _
  · by_cases hpiece : piece = []
    · left
      have := hempty hpiece
      rw [hsended, Bool.or_eq_true, decide_eq_true_iff]
      omega
    · right
      have hlength := List.length_pos_iff.mpr hpiece
      have hpulled := hpulls.pulled_eq
      have hused : t.used = r.used := by rw [ht]
      simp only [hs, stepsLeft, hform]
      omega
  · rw [hs, ht]
  · rw [hs, ht]
  · rw [hs, ht]
  · cases hgoes : last with
    | true =>
      rw [hsended, hgoes, Bool.true_or]
      exact .inl rfl
    | false => exact .inr (.inr (.inr (hfed.used_up heven (.inr hfile) hgoes)))

/-- Reading packed data fails at the end of the file, or where they are damaged. -/
private theorem cause_of_unpacked {u : Unpacker} {fed : List Bytes} (hopen : u.feed.Open fed)
    (hform : r.form = .packed u fed) (h : r.unpacked u fed n = .error e) :
    e = .endOfData ∧ r.file = [] ∧ ¬r.Complete ∨ (∃ why, e = .unpacking why) ∧ r.Damaged := by
  unfold unpacked at h
  split at h
  · next hpull =>
    cases h
    exact .inl (file_of_pull hpull)
  next piece t hpull =>
  split at h
  · next why hfeed =>
    cases h
    have hinput : input (piece :: fed) <+: r.supply fed :=
      (pulls_pull hpull).1.supply_eq ▸ List.prefix_append _ _
    refine .inr ⟨⟨why, rfl⟩, ?_⟩
    simp only [Damaged, hform]
    exact u.damaged_mono hinput (u.refused hopen hfeed)
  · cases h

/-! #### Data in any form -/

private theorem advances_raw (hr : r.Started) (hended : r.ended = false) (hn : n ≠ 0)
    (h : r.raw n = .ok (data, s)) : Advances n r data s := by
  unfold raw at h
  split at h
  · next hform => exact advances_stored hform h
  · next flow hform => exact advances_compressed hr hended hform hn h
  · next u fed hform => exact advances_unpacked hr hended hform h

/-- Reading fails at the end of the file, where more of it is needed, or where the compressed data
are damaged. -/
theorem cause_of_raw (hr : r.Started) (hended : r.ended = false) (h : r.raw n = .error e) :
    e = .endOfData ∧ r.file = [] ∧ ¬r.Complete ∨
      ((∃ why, e = .compression why) ∨ r.way = .packed ∧ ∃ why, e = .unpacking why) ∧
        r.Damaged := by
  unfold raw at h
  split at h
  · exact .inl (file_of_stored h)
  · next flow hform =>
    exact (cause_of_compressed hform h).imp_right (And.imp_left .inl)
  · next u fed hform =>
    simp only [Started, hform] at hr
    have hway : r.way = .packed := by simp only [way, hform]
    exact (cause_of_unpacked (hr hended) hform h).imp_right
      (And.imp_left fun hwhy => .inr ⟨hway, hwhy⟩)

/-! ### Steps -/

/-- All data will have the check that they should have. -/
def Checks (r : Reader) : Prop := r.check.toNat = r.expected

/-- A step for a request of `n` bytes gives the first part of the content. The last one leaves
nothing, unless it is held back, and has compared the check. -/
structure Steps (n : Nat) (r : Reader) (data : Bytes) (s : Reader) : Prop where
  started : s.Started
  keeps : Keeps r s
  content_prefix : data ++ s.content <+: r.content
  content_eq : r.Even → r.content = data ++ s.content
  checked : s.ended = true → s.crc.toNat = s.expected
  less : s.ended = true ∨ s.stepsLeft < r.stepsLeft
  pending_eq : s.pending = r.pending
  left_eq : r.left = data.length + s.left
  crc_eq : s.crc = Crc32.update r.crc data
  expected_eq : s.expected = r.expected
  /-- The last step comes to the member's size, or to the end of all data. -/
  at_end : s.ended = true → s.left = 0 ∨ s.Complete ∨ s.Finishes
  /-- Any other gives all that it has read. -/
  goes : s.ended = false → s.left ≠ 0 ∧ r.ahead = data ++ s.ahead ∧
    (r.Even → s.file = [] →
      s.Complete ∨ s.way = .deflated ∧ n ≤ data.length ∨ s.ahead = [] ∧ ¬s.Finishes)

theorem Steps.proper (h : Steps n r data s) (hr : r.Proper) : s.Proper :=
  ⟨h.started, h.keeps.even_iff.mpr hr.even⟩

theorem Steps.check_eq (h : Steps n r data s) (hr : r.Even) : s.check = r.check := by
  rw [check, check, h.content_eq hr, Crc32.update_append, h.crc_eq]

/-- Where the data are over, or the member's size is reached, what has been read is the rest of the
content. -/
theorem Advances.content_eq {got : Bytes} (ha : Advances n r got t) (hr : r.Even)
    (hended : r.ended = false) (hover : t.ended = true ∨ t.left ≤ got.length) :
    r.content = got.take t.left := by
  rw [content, if_neg (by simp [hended]), ha.ahead_eq, ha.left_eq]
  rcases hover with hover | hsize
  · rw [(ha.at_end hover).1 hr, List.append_nil]
  · exact List.take_append_of_le_length (ha.left_eq ▸ hsize)

/-- What has been read is cut to the member's size. The check is compared at the end. -/
theorem account_eq_ok {got : Bytes} (h : r.account got = .ok (data, s)) :
    data = got.take r.left ∧
      s = { r with
        left := r.left - data.length
        crc := Crc32.update r.crc data
        ended := r.ended || r.left - data.length = 0 } ∧
      (s.ended = true → s.crc.toNat = s.expected) := by
  unfold account at h
  dsimp only at h
  split at h
  · cases h
  next hcheck =>
  cases h
  rw [Bool.and_eq_true, not_and, bne_iff_ne, Decidable.not_not] at hcheck
  exact ⟨rfl, rfl, hcheck⟩

/-- A reader that goes on has been started if one with the same data has. -/
private theorem Started.of_ended (hr : r.Started) (hform : s.form = r.form)
    (hused : s.used = r.used) (havailable : s.available = r.available)
    (hended : s.ended = false → r.ended = false) : s.Started := by
  unfold Started at hr ⊢
  rw [hform, hused, havailable]
  split at hr
  · trivial
  · exact hr
  · exact fun h => hr (hended h)

private theorem steps_account {got : Bytes} (ha : Advances n r got t) (hended : r.ended = false)
    (hpending : t.pending = r.pending) (h : t.account got = .ok (data, s)) :
    Steps n r data s := by
  obtain ⟨hspending, hspent⟩ := account_left h
  obtain ⟨hdata, hs, hchecked⟩ := account_eq_ok h
  have hleft : t.left = data.length + s.left := hspent.symm
  have hlength : data.length = min t.left got.length := by rw [hdata, List.length_take]
  have hsended : s.ended = (t.ended || decide (s.left = 0)) := by rw [hs]
  have hsahead : s.ahead = t.ahead := by rw [hs]; rfl
  have hover : s.ended = true → t.ended = true ∨ s.left = 0 := by
    rw [hsended, Bool.or_eq_true, decide_eq_true_iff]
    exact id
  have hgoes : s.ended = false → (t.ended = false ∧ s.left ≠ 0) ∧ data = got := by
    rw [hsended, Bool.or_eq_false_iff, decide_eq_false_iff_not]
    refine fun h => ⟨h, ?_⟩
    rw [hdata, List.take_of_length_le]
    omega
  have hrest : s.ended = false → r.content = data ++ s.content := by
    intro h
    rw [content, if_neg (by simp [hended]), content.eq_1 s, if_neg (by simp [h]), hsahead,
      ha.ahead_eq, ← ha.left_eq, hleft, (hgoes h).2, List.take_length_add_append]
  have hscontent : s.ended = true → s.content = [] := fun h => if_pos h
  have hkeeps : Keeps t s := by
    rw [hs]
    exact ⟨rfl, Iff.rfl, Iff.rfl, Iff.rfl, Iff.rfl⟩
  refine ⟨?_, ?_, ?_, fun heven => ?_, hchecked, ?_, hspending.trans hpending, ha.left_eq ▸ hleft,
    ?_, ?_, fun h => ?_, fun h => ⟨(hgoes h).1.2, ?_, fun heven hfile => ?_⟩⟩
  · refine ha.started.of_ended ?_ ?_ ?_ fun h => (hgoes h).1.1
    all_goals rw [hs]
    rfl
  · exact ha.keeps.trans hkeeps
  · cases h : s.ended with
    | false => exact (hrest h).symm ▸ List.prefix_rfl
    | true =>
      rw [hscontent h, List.append_nil, hdata, content, if_neg (by simp [hended]), ha.ahead_eq,
        ← ha.left_eq, List.take_append]
      exact List.prefix_append _ _
  · cases h : s.ended with
    | false => exact hrest h
    | true =>
      rw [hscontent h, List.append_nil, hdata,
        ha.content_eq heven hended ((hover h).imp_right fun _ => by omega)]
  · have hsteps : s.stepsLeft = t.stepsLeft := by rw [hs]; rfl
    rw [hsteps]
    refine ha.less.imp_left fun h => ?_
    rw [hsended, h, Bool.true_or]
  · rw [hs, ha.crc_eq]
  · rw [hs, ha.expected_eq]
  · rw [hkeeps.complete_iff, hkeeps.finishes_iff]
    exact (hover h).elim (fun h => .inr (ha.at_end h).2) .inl
  · rw [ha.ahead_eq, hsahead, (hgoes h).2]
  · have htfile : t.file = [] := by rw [hs] at hfile; exact hfile
    rw [hkeeps.complete_iff, hkeeps.finishes_iff, hkeeps.way_eq, hsahead, (hgoes h).2]
    refine (ha.exhausted heven htfile).resolve_left fun htended => ?_
    exact absurd ((hgoes h).1.1.symm.trans htended) (by decide)

/-- A step reads, and takes into account what it has read. -/
theorem step_eq_ok (hended : r.ended = false) (hn : n ≠ 0) (h : r.step n = .ok (data, s)) :
    ∃ got t, r.raw n = .ok (got, t) ∧ t.account got = .ok (data, s) := by
  unfold step at h
  rw [if_neg (by simp [hended, hn])] at h
  split at h
  · cases h
  next got t hraw => exact ⟨got, t, hraw, h⟩

/-- **One step.** -/
theorem steps_step (hr : r.Started) (hended : r.ended = false) (hn : n ≠ 0)
    (h : r.step n = .ok (data, s)) : Steps n r data s := by
  obtain ⟨got, t, hraw, haccount⟩ := step_eq_ok hended hn h
  exact steps_account (advances_raw hr hended hn hraw) hended (raw_alike hraw).1 haccount

/-- A step fails at the end of the file, for damage, or since the check is wrong. -/
theorem cause_of_step (hr : r.Started) (hended : r.ended = false) (hn : n ≠ 0)
    (h : r.step n = .error e) : (e = .endOfData ∧ r.file = [] ∧ ¬r.Complete) ∨
      (((∃ why, e = .compression why) ∨ r.way = .packed ∧ ∃ why, e = .unpacking why) ∧
        r.Damaged) ∨
      (∃ name, e = .check name) ∧ (r.Even → ¬r.Checks) := by
  unfold step at h
  rw [if_neg (by simp [hended, hn])] at h
  split at h
  · next e' hraw =>
    cases h
    exact (cause_of_raw hr hended hraw).imp_right .inl
  next got t hraw =>
  have ha := advances_raw hr hended hn hraw
  unfold account at h
  dsimp only at h
  split at h
  · next hcheck =>
    cases h
    rw [Bool.and_eq_true, Bool.or_eq_true, decide_eq_true_iff, bne_iff_ne, List.length_take]
      at hcheck
    refine .inr (.inr ⟨⟨_, rfl⟩, fun heven hchecks => hcheck.2 ?_⟩)
    have hcontent := ha.content_eq heven hended (hcheck.1.imp_right fun _ => by omega)
    rw [ha.crc_eq, ha.expected_eq, ← hcontent]
    exact hchecks
  · cases h

end Zip.Reader

end EntryRef
