import EntryRef.Deflate.Inflate

/-!
# How far decompression reads

Reading from a bit stream goes forward and stays within the data. `Bits.Within n` says that a place
is one in a stream of `n` bytes, and `Reading.Leads` what may come of reading from such a place: a
later place, with some property of what has been read, or an ending that shows between the place and
the end of the stream.

`Leads` is proved of each function that reads, as these are put together, up to a whole step of
decompression (`leads_readStep`).
-/

namespace EntryRef.Deflate

/-! ### Places -/

namespace Bits

variable {n k x : Nat} {b c : Bits}

/-- The place is one in a stream of `n` bytes. -/
structure Within (n : Nat) (b : Bits) : Prop where
  used_lt : b.used < 8
  start_add : b.start + b.rest.length = n
  rest_ne_nil : b.used ≠ 0 → b.rest ≠ []

/-- The number of bits before a place. -/
def position (b : Bits) : Nat := 8 * b.start + b.used

/-- The start of a stream is a place in it. -/
theorem within_ofBytes (bs : Bytes) : (ofBytes bs).Within bs.length :=
  ⟨Nat.zero_lt_succ 7, Nat.zero_add _, fun h => absurd rfl h⟩

/-- A later place has taken no fewer bytes, where a byte that is begun counts as taken. -/
theorem Within.pulled_le_pulled (hb : b.Within n) (hc : c.Within n)
    (h : b.position ≤ c.position) : b.pulled ≤ c.pulled := by
  have hblt := hb.used_lt
  have hclt := hc.used_lt
  unfold position at h
  unfold pulled
  split <;> split <;> omega

/-- No place has taken more bytes than there are. -/
theorem Within.pulled_le (h : b.Within n) : b.pulled ≤ n := by
  have hstart := h.start_add
  unfold pulled
  split
  · omega
  · next hused =>
    have hrest := List.length_pos_iff.mpr (h.rest_ne_nil hused)
    omega

/-- A bit is read forward, by one position. -/
private theorem within_of_bit? (hb : b.Within n) (h : b.bit? = some (x, c)) :
    c.Within n ∧ c.position = b.position + 1 := by
  have hlt := hb.used_lt
  have hstart := hb.start_add
  unfold bit? at h
  split at h
  · cases h
  next y r hrest =>
  rw [hrest, List.length_cons] at hstart
  split at h
  · next hused =>
    cases h
    refine ⟨⟨?_, ?_, fun _ => ?_⟩, rfl⟩
    · simp only
      omega
    · simp only [hrest, List.length_cons]
      exact hstart
    · simp only [hrest]
      exact List.cons_ne_nil y r
  · cases h
    refine ⟨⟨Nat.zero_lt_succ 7, ?_, fun h => absurd rfl h⟩, ?_⟩
    · simp only
      omega
    · simp only [position]
      omega

/-- A number of `k` bits is `k` positions long. -/
private theorem within_of_number? (hb : b.Within n) (h : number? k b = some (x, c)) :
    c.Within n ∧ c.position = b.position + k := by
  induction k generalizing b c x with
  | zero =>
    cases h
    exact ⟨hb, rfl⟩
  | succ k ih =>
    simp only [number?, Option.bind_eq_bind, Option.bind_eq_some_iff] at h
    obtain ⟨⟨low, d⟩, hd, ⟨high, e⟩, he, heq⟩ := h
    cases heq
    obtain ⟨hdn, hdb⟩ := within_of_bit? hb hd
    obtain ⟨hen, hed⟩ := ih hdn he
    refine ⟨hen, ?_⟩
    simp only at hed hdb ⊢
    omega

/-- The rest of a byte that is begun is passed over, which goes forward if it goes anywhere. -/
private theorem within_align (hb : b.Within n) :
    b.align.Within n ∧ b.align.used = 0 ∧ b.position ≤ b.align.position := by
  have hlt := hb.used_lt
  have hstart := hb.start_add
  unfold align
  split
  · next hused => exact ⟨hb, hused, Nat.le_refl _⟩
  · next hused =>
    have hrest := List.length_pos_iff.mpr (hb.rest_ne_nil hused)
    refine ⟨⟨Nat.zero_lt_succ 7, ?_, fun h => absurd rfl h⟩, rfl, ?_⟩
    · simp only [List.length_tail]
      omega
    · simp only [position]
      omega

/-- Bytes are read at the start of a byte, and what follows one is the start of a byte again. -/
private theorem within_of_byte? {y : UInt8} (hb : b.Within n) (hused : b.used = 0)
    (h : b.byte? = some (y, c)) : c.Within n ∧ c.used = 0 ∧ c.start = b.start + 1 := by
  have hstart := hb.start_add
  unfold byte? at h
  split at h
  · cases h
  next z r hrest =>
  cases h
  rw [hrest, List.length_cons] at hstart
  refine ⟨⟨?_, ?_, fun h => absurd hused h⟩, hused, rfl⟩
  · simp only [hused]
    decide
  · simp only
    omega

/-- A symbol is read forward, whatever its code, and whether or not the code has it. -/
private theorem within_of_decodeFrom {symbols : Array Nat} {word first index : Nat}
    {counts : List Nat}
    {symbol : Option Nat} (hb : b.Within n)
    (h : Code.decodeFrom symbols word first index counts b = some (symbol, c)) :
    c.Within n ∧ b.position ≤ c.position := by
  induction counts generalizing b word first index with
  | nil =>
    cases h
    exact ⟨hb, Nat.le_refl _⟩
  | cons count counts ih =>
    simp only [Code.decodeFrom, Option.bind_eq_bind, Option.bind_eq_some_iff] at h
    obtain ⟨⟨bit, d⟩, hd, hrest⟩ := h
    obtain ⟨hdn, hdb⟩ := within_of_bit? hb hd
    simp only at hrest
    split at hrest
    · cases hrest
      exact ⟨hdn, by omega⟩
    · obtain ⟨hcn, hcd⟩ := ih hdn hrest
      exact ⟨hcn, by omega⟩

end Bits

/-! ### Reading -/

/-- The number of bytes after which an ending shows. -/
def Ending.needs? : Ending → Option Nat
  | .finished needs | .fault _ needs | .tooFar needs => some needs
  | .starved => none

namespace Reading

variable {α β : Type} {n k : Nat} {b : Bits} {m : Reading α} {f : α → Reading β}
  {p : α → Bits → Prop} {q : β → Bits → Prop}

/-- What may come of reading from a place in a stream of `n` bytes: a later place with the property
`p`, or an ending that shows between here and the end of the stream. -/
def Leads (n : Nat) (m : Reading α) (b : Bits) (p : α → Bits → Prop) : Prop :=
  (∀ a c, m b = .ok (a, c) → c.Within n ∧ b.position ≤ c.position ∧ p a c) ∧
    ∀ ending needs, m b = .error ending → ending.needs? = some needs →
      b.pulled ≤ needs ∧ needs ≤ n

/-- What reads nothing stays where it is. -/
private theorem leads_pure {a : α} (hb : b.Within n) (h : p a b) : Leads n (pure a) b p := by
  refine ⟨fun a c heq => ?_, fun e needs he => (nomatch he)⟩
  cases heq
  exact ⟨hb, Nat.le_refl _, h⟩

/-- What is refused ends at once, where the data still are. -/
private theorem leads_fail {why : Fault} (hb : b.Within n) :
    Leads n (fail why : Reading α) b p := by
  refine ⟨fun a c h => (nomatch h), fun e needs he hneeds => ?_⟩
  cases he
  cases hneeds
  exact ⟨Nat.le_refl _, hb.pulled_le⟩

/-- A step that may find no data ends with the stream if it does. -/
private theorem leads_ofOption {g : Bits → Option (α × Bits)}
    (h : ∀ a c, g b = some (a, c) → c.Within n ∧ b.position ≤ c.position ∧ p a c) :
    Leads n (ofOption g) b p := by
  unfold Leads ofOption
  cases hg : g b with
  | none =>
    refine ⟨fun a c heq => (nomatch heq), fun e needs he hneeds => ?_⟩
    cases he
    cases hneeds
  | some r =>
    refine ⟨fun a c heq => ?_, fun e needs he => (nomatch he)⟩
    cases heq
    exact h _ _ hg

/-- What reading leads to is where the next reading starts. -/
theorem Leads.bind (hb : b.Within n) (hm : Leads n m b p)
    (hf : ∀ a c, c.Within n → b.position ≤ c.position → p a c → Leads n (f a) c q) :
    Leads n (m >>= f) b q := by
  have hrun : (m >>= f) b = (m b >>= fun r => f r.1 r.2) := rfl
  unfold Leads
  rw [hrun]
  cases hr : m b with
  | error ending =>
    refine ⟨fun a c h => (nomatch h), fun e needs he => ?_⟩
    obtain rfl : ending = e := Except.error.inj he
    exact hm.2 ending needs hr
  | ok r =>
    obtain ⟨hwithin, hle, hp⟩ := hm.1 r.1 r.2 hr
    have hnext := hf r.1 r.2 hwithin hle hp
    refine ⟨fun a c h => ?_, fun e needs he hneeds => ?_⟩
    · obtain ⟨hc, hrc, hq⟩ := hnext.1 a c h
      exact ⟨hc, Nat.le_trans hle hrc, hq⟩
    · obtain ⟨hpulled, hn⟩ := hnext.2 e needs he hneeds
      exact ⟨Nat.le_trans (hb.pulled_le_pulled hwithin hle) hpulled, hn⟩

/-- Either way of a choice leads there. -/
theorem Leads.ite {m' : Reading α} {c : Prop} [Decidable c] (h : Leads n m b p)
    (h' : Leads n m' b p) : Leads n (if c then m else m') b p := by
  split
  · exact h
  · exact h'

/-- Reading numbers moves by as many bits. -/
theorem leads_number (hb : b.Within n) :
    Leads n (number k) b fun _ c => c.position = b.position + k :=
  leads_ofOption fun _ _ h => by
    obtain ⟨hc, heq⟩ := Bits.within_of_number? hb h
    exact ⟨hc, by omega, heq⟩

/-- Reading a symbol goes forward. -/
private theorem leads_symbol (code : Code) (hb : b.Within n) :
    Leads n (symbol code) b fun _ _ => True :=
  leads_ofOption fun _ _ h => (Bits.within_of_decodeFrom hb h).imp_right fun hle => ⟨hle, trivial⟩

/-- Reading one thing after another goes forward if each of them does. -/
private theorem leads_mapM {γ : Type} {g : γ → Reading α} (xs : List γ)
    (hg : ∀ x c, c.Within n → Leads n (g x) c fun _ _ => True) (hb : b.Within n) :
    Leads n (xs.mapM g) b fun _ _ => True := by
  induction xs generalizing b with
  | nil => exact leads_pure hb trivial
  | cons x xs ih =>
    rw [List.mapM_cons]
    refine (hg x b hb).bind hb fun y c hc _ _ => ?_
    exact (ih hc).bind hc fun ys d hd _ _ => leads_pure hd trivial

end Reading

/-! ### Blocks -/

open Reading

variable {n : Nat} {b : Bits}

/-- A stored block goes on between two bytes. -/
def Mode.Aligned : Mode → Bits → Prop
  | .stored _ _, b => b.used = 0
  | _, _ => True

private theorem aligned_after (last : Bool) (b : Bits) : (Mode.after last).Aligned b := by
  cases last <;> trivial

/-- The header of a stored block leads to the start of a byte. -/
private theorem leads_readStored (last : Bool) (hb : b.Within n) :
    Leads n (readStored last) b Mode.Aligned := by
  obtain ⟨hwithin, hused, hle⟩ := Bits.within_align hb
  have halign : Leads n (modify Bits.align : Reading PUnit) b fun _ c => c.used = 0 := by
    refine ⟨fun _ c h => ?_, fun _ _ h => nomatch h⟩
    cases h
    exact ⟨hwithin, hle, hused⟩
  refine halign.bind hb fun _ c hc _ hcused => ?_
  refine (leads_number hc).bind hc fun length d hd _ hlength => ?_
  refine (leads_number hd).bind hd fun check e he _ hcheck => ?_
  -- two numbers of two bytes each lead from a byte to a byte
  have heused : e.used = 0 := by
    have := he.used_lt
    unfold Bits.position at hlength hcheck
    omega
  split
  · refine leads_pure he ?_
    split
    · exact aligned_after last e
    · exact heused
  · exact leads_fail he

private theorem leads_readLengthCode (count : Nat) (hb : b.Within n) :
    Leads n (readLengthCode count) b fun _ _ => True := by
  refine (leads_mapM _ (fun symbol c hc => ?_) hb).bind hb fun _ c hc _ _ => leads_pure hc trivial
  exact (leads_number hc).bind hc fun _ d hd _ _ => leads_pure hd trivial

/-- The lengths of a code are read forward, with as much fuel as there may be. -/
private theorem leads_readLengths (code : Code) (total fuel : Nat) (found : Array Nat)
    (hb : b.Within n) :
    Leads n (readLengths code total fuel found) b fun _ _ => True := by
  induction fuel generalizing found b with
  | zero => exact leads_pure hb trivial
  | succ fuel ih =>
    rw [readLengths]
    refine (leads_pure hb trivial).ite ?_
    refine (leads_symbol code hb).bind hb fun symbol c hc _ _ => (ih _ hc).ite ?_
    exact (leads_number hc).bind hc fun extra d hd _ _ => (leads_fail hd).ite (ih _ hd)

private theorem leads_codeOr (why : Fault) (strict : Bool) (lengths : List Nat) (hb : b.Within n) :
    Leads n (codeOr why strict lengths) b fun _ _ => True := by
  unfold codeOr
  split
  · exact leads_pure hb trivial
  · exact leads_fail hb

private theorem leads_readCodes (last : Bool) (hb : b.Within n) :
    Leads n (readCodes last) b Mode.Aligned := by
  refine (leads_number hb).bind hb fun _ c hc _ _ => ?_
  refine (leads_number hc).bind hc fun _ d hd _ _ => ?_
  refine (leads_number hd).bind hd fun _ e he _ _ => (leads_fail he).ite ?_
  refine (leads_readLengthCode _ he).bind he fun _ b hb _ _ => ?_
  refine (leads_codeOr _ _ _ hb).bind hb fun _ c hc _ _ => ?_
  refine (leads_readLengths _ _ _ _ hc).bind hc fun _ d hd _ _ => (leads_fail hd).ite ?_
  refine (leads_codeOr _ _ _ hd).bind hd fun _ e he _ _ => ?_
  exact (leads_codeOr _ _ _ he).bind he fun _ b hb _ _ => leads_pure hb trivial

/-- The header of any block leads to a place at which the block may go on. -/
private theorem leads_readHeader (hb : b.Within n) : Leads n readHeader b Mode.Aligned := by
  refine (leads_number hb).bind hb fun _ c hc _ _ => ?_
  refine (leads_number hc).bind hc fun kind d hd _ _ => ?_
  split
  · exact leads_readStored _ hd
  · exact leads_pure hd trivial
  · exact leads_readCodes _ hd
  · exact leads_fail hd

private theorem leads_readRow (rows : Array (Nat × Nat)) (i : Nat) (why : Fault) (hb : b.Within n) :
    Leads n (readRow rows i why) b fun _ _ => True := by
  unfold readRow
  split
  · exact leads_fail hb
  · exact (leads_number hb).bind hb fun _ c hc _ _ => leads_pure hc trivial

/-- A symbol of a coded block is no byte of a stored one. -/
theorem leads_readCoded (literals distances : Code) (hb : b.Within n) :
    Leads n (readCoded literals distances) b fun r _ => ∀ x, r.1 ≠ .stored x := by
  refine (leads_symbol literals hb).bind hb fun symbol c hc _ _ => ?_
  split
  · exact leads_fail hc
  refine (leads_pure hc nofun).ite ((leads_pure hc nofun).ite ?_)
  refine (leads_readRow _ _ _ hc).bind hc fun length d hd _ _ => ?_
  refine (leads_symbol distances hd).bind hd fun symbol e he _ _ => ?_
  split
  · exact leads_fail he
  · exact (leads_readRow _ _ _ he).bind he fun _ b hb _ _ => leads_pure hb nofun

/-- **One step.** A step of decompression goes forward and stays within the data; a byte of a stored
block is one byte of the data. -/
theorem leads_readStep {mode : Mode} (hmode : mode.Aligned b) (hb : b.Within n) :
    Leads n (readStep mode) b fun r c =>
      r.2.Aligned c ∧ ∀ x, r.1 = .stored x → c.pulled = b.pulled + 1 := by
  cases mode with
  | header =>
    exact (leads_readHeader hb).bind hb fun mode c hc _ hmode => leads_pure hc ⟨hmode, nofun⟩
  | stored count last =>
    have hbyte : Leads n (ofOption Bits.byte?) b fun _ c =>
        c.used = 0 ∧ c.start = b.start + 1 := by
      refine leads_ofOption fun y c h => ?_
      obtain ⟨hc, hused, hstart⟩ := Bits.within_of_byte? hb hmode h
      refine ⟨hc, ?_, hused, hstart⟩
      have hbused : b.used = 0 := hmode
      unfold Bits.position
      omega
    refine hbyte.bind hb fun y c hc _ hnext => leads_pure hc ⟨?_, fun _ _ => ?_⟩
    · dsimp only
      split
      · exact aligned_after last c
      · exact hnext.1
    · have hbused : b.used = 0 := hmode
      simp only [Bits.pulled, hnext.1, hnext.2, hbused, if_true]
  | coded literals distances last =>
    refine (leads_readCoded literals distances hb).bind hb fun r c hc _ haction => ?_
    refine leads_pure hc ⟨?_, fun x hx => absurd hx (haction x)⟩
    dsimp only
    split
    · trivial
    · exact aligned_after last c
  | ended =>
    refine ⟨fun a c h => (nomatch h), fun e needs he hneeds => ?_⟩
    cases he
    cases hneeds
    exact ⟨Nat.le_refl _, hb.pulled_le⟩

end EntryRef.Deflate
