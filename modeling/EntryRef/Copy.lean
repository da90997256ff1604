import EntryRef.Given

/-!
# Copying

A `Source` gives bytes in reads of a size that the reader asks for. `Source.copy` reads until a read
gives nothing or fails, and tells what it would write. That it ends is a property of sources: a read
that gives something leaves less to come.
-/

namespace EntryRef

variable {ε σ : Type}

/-- A source of bytes with states `σ` and failures `ε`. -/
structure Source (ε σ : Type) where
  /-- Reads bytes, given the size that is asked for; a negative size asks for everything. -/
  read : Int → σ → Except ε (Bytes × σ)
  /-- A bound on what is still to come. -/
  left : σ → Nat
  /-- A read that gives something leaves less to come. -/
  left_lt {size : Int} {s t : σ} {bs : Bytes} :
    read size s = .ok (bs, t) → bs ≠ [] → left t < left s

/-- What copying a source does. -/
structure Copied (ε : Type) where
  /-- The byte strings written, in order. -/
  writes : List Bytes
  /-- The sizes asked for, in order. -/
  asked : List Int
  /-- The failure of the last read, if it failed. -/
  fault : Option ε

/-- What copying does when its failure is told in another way. -/
def Copied.mapFault {δ : Type} (f : ε → δ) (c : Copied ε) : Copied δ :=
  ⟨c.writes, c.asked, c.fault.map f⟩

/-- The size of the reads unless another one is asked for. -/
def copySize : Int := 65536

namespace Source

/-- Copies a source behind what has been written and asked for already. -/
def copyOnto (src : Source ε σ) (size : Int) (s : σ) (writes : Array Bytes) (asked : Array Int) :
    Copied ε :=
  match h : src.read size s with
  | .error e => ⟨writes.toList, (asked.push size).toList, some e⟩
  | .ok (bs, t) =>
    if hb : bs = [] then ⟨writes.toList, (asked.push size).toList, none⟩
    else
      have : src.left t < src.left s := src.left_lt h hb
      copyOnto src size t (writes.push bs) (asked.push size)
termination_by src.left s

/-- Copies a source with reads of the given size. -/
def copy (src : Source ε σ) (size : Int) (s : σ) : Copied ε := src.copyOnto size s #[] #[]

/-- Data in memory; reads give as much as they ask for while there is that much. -/
def memory (ε : Type) : Source ε Bytes where
  read size bs := .ok (if size < 0 then (bs, []) else bs.splitAt size.toNat)
  left := List.length
  left_lt := by
    intro size s t bs h hb
    split at h <;> simp at h <;> obtain ⟨rfl, rfl⟩ := h
    · simpa [List.length_pos_iff] using hb
    · simp only [List.length_drop]
      have hs : s ≠ [] := by rintro rfl; simp at hb
      have hn : size.toNat ≠ 0 := by
        intro h0
        simp [h0] at hb
      have := List.length_pos_iff.2 hs
      omega

/-- Data in memory behind which every read fails. -/
def broken (why : ε) : Source ε Bytes where
  read size bs := if bs = [] then .error why else (memory ε).read size bs
  left := (memory ε).left
  left_lt h hb := by
    split at h
    · simp at h
    · exact (memory ε).left_lt h hb

/-- Pieces that come one with each read, whatever size it asks for. -/
def chunks (ε : Type) : Source ε (List Bytes) where
  read _ cs := .ok (cs.headD [], cs.tail)
  left := List.length
  left_lt := by
    intro size s t bs h hb
    cases s with
    | nil => simp at h; simp [h.1] at hb
    | cons c cs => simp at h; simp [← h.2]

end Source

/-! ### Sizes that are given -/

/-- Why a given value is no size of reads from data in memory. -/
inductive SizeFault
  /-- The number does not fit into a word of 64 bits. -/
  | beyondWords
  /-- A value of this kind is no number. -/
  | notANumber (kind : Text)
deriving DecidableEq

/-- The words for a fault. -/
def SizeFault.message : SizeFault → Text
  | .beyondWords => "cannot fit 'int' into an index-sized integer"
  | .notANumber kind => "argument should be integer or None, not '" ++ kind ++ "'"

/-- The size that a given value asks for; nothing asks for everything. -/
def readSize : Given → Except SizeFault Int
  | .nothing => .ok (-1)
  | .truth b => .ok (if b then 1 else 0)
  | .number n =>
    if n < -0x8000000000000000 ∨ 0x8000000000000000 ≤ n then .error .beyondWords else .ok n
  | v => .error (.notANumber v.kindName)

/-- Copies data in memory with reads of the size that a given value asks for. -/
def copyMemory (size : Given) (data : Bytes) : Except SizeFault (Copied Empty) :=
  (readSize size).map fun n => (Source.memory Empty).copy n data

end EntryRef
