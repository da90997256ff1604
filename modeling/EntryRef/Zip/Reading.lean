import EntryRef.Copy
import EntryRef.Crc32
import EntryRef.Deflate.Inflate
import EntryRef.Zip.Fault
import EntryRef.Zip.Member
import EntryRef.Zip.Unpacker

/-!
# Reading the data of members

The data of a member are read in pieces. A `Reader` is a place in them: `Reader.step` reads some of
the file and gives what comes of it, `Reader.read` gives as many bytes as are asked for, and
`Reader.readAll` gives all of them. When the data are over their check is compared.

How the data are written in the file is the `Form` of the reader. Stored data are given as they are
read. Deflated data are decompressed as far as they are asked for. Data that are packed by another
method are decompressed as far as they have been read, and no more is read than that.

The main statement is `Reader.remaining_readSize_lt`: what a reader gives is taken from the member's
size, so that copying ends.
-/

namespace EntryRef.Zip

open Text

/-- How data are written, with the state of what reads them. -/
inductive Form
  /-- The data are stored as they are. -/
  | stored
  /-- They are compressed by the method that is built in. -/
  | deflated (flow : Deflate.Flow)
  /-- They are compressed by another method, and its decompressor has been fed these pieces, the
  last of which comes first. -/
  | packed (unpacker : Unpacker) (fed : List Bytes)

/-- A place in the data of a member. -/
structure Reader where
  /-- The name of the member. -/
  name : Text
  /-- The check that all data should have. -/
  expected : Nat
  /-- The bytes of the file that have not been read. -/
  file : Bytes
  /-- The number of compressed bytes that have not been read. -/
  compressedLeft : Nat
  /-- The number of compressed bytes that have been read. -/
  pulled : Nat
  /-- How many of these are used up, where the data are deflated. -/
  used : Nat
  /-- How the data are written. -/
  form : Form
  /-- The number of bytes that the member still has. -/
  left : Nat
  /-- The check of the data so far. -/
  crc : UInt32
  /-- Are the data over? -/
  ended : Bool
  /-- Data that have been read and not been asked for. -/
  pending : Bytes

namespace Reader

/-- The fewest bytes that are read from the file, or decompressed, at once. -/
def leastRead : Nat := 4096

/-- The number of bytes that are asked for at once where all are wanted. -/
def mostRead : Nat := 0x40000000

/-- Reads from the file for a request of `n` bytes, unless all compressed data have been read. -/
def pull (r : Reader) (n : Nat) : Except Fault (Bytes × Reader) :=
  if r.compressedLeft = 0 then .ok ([], r)
  else
    let count := min (max n leastRead) r.compressedLeft
    let data := r.file.take count
    if data.isEmpty then .error .endOfData
    else .ok (data, { r with
      file := r.file.drop count
      compressedLeft := r.compressedLeft - data.length
      pulled := r.pulled + data.length })

/-- Reads stored data for a request of `n` bytes. -/
def stored (r : Reader) (n : Nat) : Except Fault (Bytes × Reader) :=
  match r.pull n with
  | .error e => .error e
  | .ok (data, r) => .ok (data, { r with ended := r.compressedLeft = 0 })

/-- Reads compressed data from the file for a request of `n` bytes, unless as many have been read
and not been used. -/
def gather (r : Reader) (n : Nat) : Except Fault Reader :=
  let waiting := r.pulled - r.used
  if waiting < n then (r.pull (n - waiting)).map (·.2) else .ok r

/-- What a reader has after a run of the decompressor. Where all compressed data have been read and
used, whatever the decompressor still holds is taken too. -/
def decompressed (r : Reader) (p : Deflate.Flow.Progress) : Bytes × Reader :=
  let r := { r with used := p.used, form := .deflated p.rest }
  if p.finished then (p.output, { r with ended := true })
  else if r.compressedLeft = 0 && p.used = r.pulled then
    let (more, rest) := p.rest.flush r.pulled
    (p.output ++ more, { r with form := .deflated rest, ended := true })
  else (p.output, r)

/-- Reads compressed data for a request of `n` bytes. -/
def compressed (r : Reader) (flow : Deflate.Flow) (n : Nat) : Except Fault (Bytes × Reader) :=
  match r.gather n with
  | .error e => .error e
  | .ok r =>
    match flow.run r.pulled (max n leastRead) with
    | .error why => .error (.compression why)
    | .ok p => .ok (r.decompressed p)

/-- Reads data that are packed by another method for a request of `n` bytes. -/
def unpacked (r : Reader) (u : Unpacker) (fed : List Bytes) (n : Nat) :
    Except Fault (Bytes × Reader) :=
  match r.pull n with
  | .error e => .error e
  | .ok (piece, r) =>
    match u.feed fed piece with
    | .error why => .error (.unpacking why)
    | .ok (data, last) =>
      .ok (data, { r with form := .packed u (piece :: fed), ended := last || r.compressedLeft = 0 })

/-- Takes data that have been read into account: those beyond the member's size do not count, and
once the data are over their check is compared. -/
def account (r : Reader) (data : Bytes) : Except Fault (Bytes × Reader) :=
  let data := data.take r.left
  let left := r.left - data.length
  let crc := Crc32.update r.crc data
  let ended := r.ended || left = 0
  if ended && crc.toNat != r.expected then .error (.check r.name)
  else .ok (data, { r with left := left, crc := crc, ended := ended })

/-- Reads for a request of `n` bytes, in the way that the data are written in. -/
def raw (r : Reader) (n : Nat) : Except Fault (Bytes × Reader) :=
  match r.form with
  | .stored => r.stored n
  | .deflated flow => r.compressed flow n
  | .packed u fed => r.unpacked u fed n

/-- Reads once for a request of `n` bytes. -/
def step (r : Reader) (n : Nat) : Except Fault (Bytes × Reader) :=
  if r.ended || n = 0 then .ok ([], r)
  else
    match r.raw n with
    | .error e => .error e
    | .ok (data, r) => r.account data

/-- A bound on the number of steps that remain: each uses up some input or gives some output, or is
the last one. -/
def stepsLeft (r : Reader) : Nat :=
  2 * r.compressedLeft + (r.pulled - r.used) +
    match r.form with
    | .stored | .packed .. => 2
    | .deflated flow => flow.ready.length + 2

/-- Reads until `n` bytes are there, behind those already read, or the data are over. -/
def fill : (fuel : Nat) → (n : Nat) → Reader → (found : List Bytes) →
    Except Fault (List Bytes × Reader)
  | 0, _, r, found => .ok (found, r)
  | fuel + 1, n, r, found =>
    if n = 0 || r.ended then .ok (found, r)
    else
      match r.step n with
      | .error e => .error e
      | .ok (data, r) =>
        if n < data.length then .ok (data.take n :: found, { r with pending := data.drop n })
        else fill fuel (n - data.length) r (data :: found)

/-- Reads `n` bytes, or fewer where the data end. -/
def read (r : Reader) (n : Nat) : Except Fault (Bytes × Reader) :=
  if n < r.pending.length then .ok (r.pending.take n, { r with pending := r.pending.drop n })
  else
    match fill r.stepsLeft (n - r.pending.length) { r with pending := [] } [r.pending] with
    | .error e => .error e
    | .ok (found, r) => .ok (found.reverse.flatten, r)

/-- Reads until the data are over. -/
def drain : (fuel : Nat) → Reader → (found : List Bytes) → Except Fault (List Bytes × Reader)
  | 0, r, found => .ok (found, r)
  | fuel + 1, r, found =>
    if r.ended then .ok (found, r)
    else
      match r.step mostRead with
      | .error e => .error e
      | .ok (data, r) => drain fuel r (data :: found)

/-- Reads all data that are left. -/
def readAll (r : Reader) : Except Fault (Bytes × Reader) :=
  match drain r.stepsLeft { r with pending := [] } [r.pending] with
  | .error e => .error e
  | .ok (found, r) => .ok (found.reverse.flatten, r)

/-! ### Rounds -/

/-- What has been found, with another piece behind it. -/
theorem flatten_reverse_cons (data : Bytes) (found : List Bytes) :
    (data :: found).reverse.flatten = found.reverse.flatten ++ data := by
  rw [List.reverse_cons, List.flatten_append, List.flatten_singleton]

/-- A round of filling a request. Nothing is to be read any more; or a step gives more than has been
asked for, and the rest is left for later; or it goes on behind a step. -/
theorem fill_succ_eq_ok {fuel n : Nat} {r s : Reader} {found out : List Bytes}
    (h : fill (fuel + 1) n r found = .ok (out, s)) :
    ((n = 0 ∨ r.ended = true) ∧ out = found ∧ s = r) ∨
    ∃ data t, n ≠ 0 ∧ r.ended = false ∧ r.step n = .ok (data, t) ∧
      (n < data.length ∧ out = data.take n :: found ∧ s = { t with pending := data.drop n } ∨
        data.length ≤ n ∧ fill fuel (n - data.length) t (data :: found) = .ok (out, s)) := by
  unfold fill at h
  split at h
  · next hstop =>
    cases h
    rw [Bool.or_eq_true, decide_eq_true_iff] at hstop
    exact .inl ⟨hstop, rfl, rfl⟩
  next hgoes =>
  rw [Bool.or_eq_true, decide_eq_true_iff, not_or, Bool.not_eq_true] at hgoes
  split at h
  · cases h
  next data t hstep =>
  refine .inr ⟨data, t, hgoes.1, hgoes.2, hstep, ?_⟩
  split at h
  · next hmuch =>
    cases h
    exact .inl ⟨hmuch, rfl, rfl⟩
  · next hfew => exact .inr ⟨Nat.le_of_not_lt hfew, h⟩

/-- A round of reading all. The data are over, or it goes on behind a step. -/
theorem drain_succ_eq_ok {fuel : Nat} {r s : Reader} {found out : List Bytes}
    (h : drain (fuel + 1) r found = .ok (out, s)) :
    (r.ended = true ∧ out = found ∧ s = r) ∨
    ∃ data t, r.ended = false ∧ r.step mostRead = .ok (data, t) ∧
      drain fuel t (data :: found) = .ok (out, s) := by
  unfold drain at h
  split at h
  · next hended =>
    cases h
    exact .inl ⟨hended, rfl, rfl⟩
  next hended =>
  split at h
  · cases h
  next data t hstep => exact .inr ⟨data, t, Bool.eq_false_iff.mpr hended, hstep, h⟩

/-! ### Copying ends -/

/-- The number of bytes that a reader can still give. -/
def remaining (r : Reader) : Nat := r.pending.length + r.left

/-- Do two readers have the same bytes pending and left? -/
def Alike (r s : Reader) : Prop := s.pending = r.pending ∧ s.left = r.left

/-- Reading from the file takes nothing from the member's size. -/
theorem pull_alike {r s : Reader} {n : Nat} {data : Bytes} (h : r.pull n = .ok (data, s)) :
    r.Alike s := by
  unfold pull at h
  split at h
  · cases h; exact ⟨rfl, rfl⟩
  · dsimp only at h
    split at h
    · cases h
    · cases h; exact ⟨rfl, rfl⟩

private theorem stored_alike {r s : Reader} {n : Nat} {data : Bytes}
    (h : r.stored n = .ok (data, s)) :
    r.Alike s := by
  unfold stored at h
  split at h
  · cases h
  · next t hp =>
    have := pull_alike hp
    cases h
    exact ⟨this.1, this.2⟩

private theorem gather_alike {r s : Reader} {n : Nat} (h : r.gather n = .ok s) : r.Alike s := by
  unfold gather at h
  dsimp only at h
  split at h
  · cases hp : r.pull (n - (r.pulled - r.used)) with
    | error e => rw [hp] at h; cases h
    | ok q => rw [hp] at h; cases h; exact pull_alike hp
  · cases h; exact ⟨rfl, rfl⟩

/-- Decompressing takes nothing from it either. -/
private theorem decompressed_alike (r : Reader) (p : Deflate.Flow.Progress) :
    r.Alike (r.decompressed p).2 := by
  unfold decompressed
  dsimp only
  split
  · exact ⟨rfl, rfl⟩
  · split <;> exact ⟨rfl, rfl⟩

private theorem compressed_alike {r s : Reader} {flow : Deflate.Flow} {n : Nat} {data : Bytes}
    (h : r.compressed flow n = .ok (data, s)) : r.Alike s := by
  unfold compressed at h
  split at h
  · cases h
  · next t ht =>
    split at h
    · cases h
    · next p _ =>
      have hs : s = (t.decompressed p).2 := (congrArg Prod.snd (Except.ok.inj h)).symm
      have h1 := gather_alike ht
      have h2 := decompressed_alike t p
      rw [hs]
      exact ⟨h2.1.trans h1.1, h2.2.trans h1.2⟩

private theorem unpacked_alike {r s : Reader} {u : Unpacker} {fed : List Bytes} {n : Nat}
    {data : Bytes} (h : r.unpacked u fed n = .ok (data, s)) : r.Alike s := by
  unfold unpacked at h
  split at h
  · cases h
  · next t ht =>
    have hpull := pull_alike ht
    split at h
    · cases h
    · cases h
      exact ⟨hpull.1, hpull.2⟩

/-- Reading in any form leaves what is pending, and what the member still has. -/
theorem raw_alike {r s : Reader} {n : Nat} {data : Bytes} (h : r.raw n = .ok (data, s)) :
    r.Alike s := by
  unfold raw at h
  split at h
  · exact stored_alike h
  · exact compressed_alike h
  · exact unpacked_alike h

/-- What is taken into account is taken from the member's size. -/
theorem account_left {r s : Reader} {data out : Bytes} (h : r.account data = .ok (out, s)) :
    s.pending = r.pending ∧ out.length + s.left = r.left := by
  unfold account at h
  dsimp only at h
  split at h
  · simp at h
  · simp at h
    simp only [← h.1, ← h.2, List.length_take, true_and]
    omega

/-- A step gives bytes out of those that the member still has. -/
theorem step_left {r s : Reader} {n : Nat} {data : Bytes} (h : r.step n = .ok (data, s)) :
    s.pending = r.pending ∧ data.length + s.left = r.left := by
  unfold step at h
  split at h
  · cases h; simp
  · split at h
    · cases h
    · next t ht =>
      have := raw_alike ht
      have ha := account_left h
      exact ⟨ha.1.trans this.1, ha.2.trans this.2⟩

/-- What has been found, and what remains, are together as many bytes as before. -/
private theorem fill_remaining {fuel n : Nat} {r s : Reader} {found out : List Bytes}
    (hr : r.pending = []) (h : fill fuel n r found = .ok (out, s)) :
    out.flatten.length + s.remaining = found.flatten.length + r.remaining := by
  induction fuel generalizing n r found with
  | zero =>
    cases h
    rfl
  | succ fuel ih =>
    obtain ⟨-, rfl, rfl⟩ | ⟨data, t, -, -, hstep, hround⟩ := fill_succ_eq_ok h
    · rfl
    obtain ⟨hpending, hleft⟩ := step_left hstep
    rcases hround with ⟨hmuch, rfl, rfl⟩ | ⟨-, hgoes⟩
    · simp only [remaining, List.flatten_cons, List.length_append, List.length_take,
        List.length_drop, hr, List.length_nil]
      omega
    · have hrest := ih (hpending.trans hr) hgoes
      simp only [remaining, List.flatten_cons, List.length_append, hr, hpending,
        List.length_nil] at hrest ⊢
      omega

private theorem length_flatten_reverse (found : List Bytes) :
    found.reverse.flatten.length = found.flatten.length := by
  rw [List.length_flatten, List.map_reverse, List.sum_reverse, ← List.length_flatten]

/-- What a read gives is taken from what remains. -/
theorem read_remaining {r s : Reader} {n : Nat} {data : Bytes} (h : r.read n = .ok (data, s)) :
    data.length + s.remaining = r.remaining := by
  unfold read at h
  split at h
  · simp at h
    simp only [← h.1, ← h.2, remaining, List.length_take, List.length_drop]
    omega
  · split at h
    · simp at h
    · next found t hf =>
      have hleft := fill_remaining (by rfl) hf
      obtain ⟨rfl, rfl⟩ := Prod.mk.inj (Except.ok.inj h)
      rw [length_flatten_reverse, hleft, List.flatten_singleton, remaining, remaining,
        List.length_nil, Nat.zero_add]

/-- The same where all is read. -/
private theorem drain_remaining {fuel : Nat} {r s : Reader} {found out : List Bytes}
    (h : drain fuel r found = .ok (out, s)) :
    out.flatten.length + s.remaining = found.flatten.length + r.remaining := by
  induction fuel generalizing r found with
  | zero =>
    cases h
    rfl
  | succ fuel ih =>
    obtain ⟨-, rfl, rfl⟩ | ⟨data, t, -, hstep, hgoes⟩ := drain_succ_eq_ok h
    · rfl
    obtain ⟨hpending, hleft⟩ := step_left hstep
    have hrest := ih hgoes
    simp only [remaining, List.flatten_cons, List.length_append, hpending] at hrest ⊢
    omega

/-- What reading all gives is taken from what remains. -/
theorem readAll_remaining {r s : Reader} {data : Bytes} (h : r.readAll = .ok (data, s)) :
    data.length + s.remaining = r.remaining := by
  unfold readAll at h
  split at h
  · simp at h
  · next found t hf =>
    have hleft := drain_remaining hf
    obtain ⟨rfl, rfl⟩ := Prod.mk.inj (Except.ok.inj h)
    rw [length_flatten_reverse, hleft, List.flatten_singleton, remaining, remaining,
      List.length_nil, Nat.zero_add]

/-- Reads as many bytes as are asked for, or all for a negative size. -/
def readSize (r : Reader) (size : Int) : Except Fault (Bytes × Reader) :=
  if size < 0 then r.readAll else r.read size.toNat

/-- A read that gives something leaves less. -/
theorem remaining_readSize_lt {r s : Reader} {size : Int} {data : Bytes}
    (h : r.readSize size = .ok (data, s)) (hd : data ≠ []) : s.remaining < r.remaining := by
  have : data.length + s.remaining = r.remaining := by
    unfold readSize at h
    split at h
    · exact readAll_remaining h
    · exact read_remaining h
  have := List.length_pos_iff.2 hd
  omega

/-- The data of members as a source for copying. -/
def source : Source Trouble Reader where
  read size r := (r.readSize size).mapError Fault.trouble
  left := remaining
  left_lt {size s t bs} h hd := by
    cases hr : s.readSize size with
    | error e => rw [hr] at h; cases h
    | ok p =>
      rw [hr] at h
      have hp : p = (bs, t) := by injection h
      rw [hp] at hr
      exact remaining_readSize_lt hr hd

end Reader

end EntryRef.Zip
