import EntryRef.Zip.Archive

/-!
# Decompressors of a single stream

The plainest decompressor knows one stream of compressed data and the data that it stands for:
`Unpacker.ofStream`. It gives the data when the stream is whole, and refuses what is no part of the
stream. It keeps the laws of an `Unpacker` and holds nothing back (`Unpacker.eager_ofStream`), so
that what is said of archives for all tools is said of archives with packed members as well.
`packedFile` is one of these.
-/

namespace EntryRef.Zip

variable {stream data got : Bytes} {why e : Trouble} {fed : List Bytes} {piece : Bytes}
  {last : Bool}

/-- The data that compressed data stand for, if these have the stream in front. -/
def plainOf (stream data bs : Bytes) : Bytes := if stream <+: bs then data else []

/-- The answers of the decompressor of a stream. -/
def feedStream (stream data : Bytes) (why : Trouble) : Feed := fun fed piece =>
  let bs := input (piece :: fed)
  if stream <+: bs ∨ bs <+: stream then .ok (plainOf stream data bs, stream <+: bs)
  else .error why

/-- An answer is what the compressed data stand for. -/
private theorem feedStream_eq_ok (h : feedStream stream data why fed piece = .ok (got, last)) :
    got = plainOf stream data (input (piece :: fed)) ∧
      (last = true ↔ stream <+: input (piece :: fed)) := by
  unfold feedStream at h
  dsimp only at h
  split at h
  · cases h
    exact ⟨rfl, decide_eq_true_iff⟩
  · cases h

/-- What is refused is no part of the stream. -/
private theorem feedStream_eq_error (h : feedStream stream data why fed piece = .error e) :
    ¬(stream <+: input (piece :: fed) ∨ input (piece :: fed) <+: stream) := by
  unfold feedStream at h
  dsimp only at h
  split at h
  · cases h
  · next hpart => exact hpart

/-- As long as the stream is not whole nothing has been given. -/
private theorem total_feedStream (h : (feedStream stream data why).Open fed) :
    (feedStream stream data why).total fed = [] := by
  induction fed with
  | nil => rfl
  | cons piece fed ih =>
    obtain ⟨hopen, got, hgot⟩ := h
    obtain ⟨rfl, hover⟩ := feedStream_eq_ok hgot
    have hgoes : ¬stream <+: input (piece :: fed) := fun h => Bool.false_ne_true (hover.mpr h)
    rw [Feed.total, ih hopen, hgot, List.nil_append]
    exact if_neg hgoes

/-- All that has been given at an answer is what the compressed data stand for. -/
private theorem total_append_feedStream (hopen : (feedStream stream data why).Open fed)
    (h : feedStream stream data why fed piece = .ok (got, last)) :
    (feedStream stream data why).total fed ++ got =
      plainOf stream data (input (piece :: fed)) := by
  rw [total_feedStream hopen, List.nil_append]
  exact (feedStream_eq_ok h).1

/-- The decompressor of a stream, which refuses other data for the given trouble. -/
def Unpacker.ofStream (stream data : Bytes) (why : Trouble) : Unpacker where
  feed := feedStream stream data why
  plain := plainOf stream data
  Ends bs := stream <+: bs
  Damaged bs := ¬(stream <+: bs ∨ bs <+: stream)
  plain_mono {bs cs} h := by
    unfold plainOf
    by_cases hwhole : stream <+: bs
    · simp only [hwhole, hwhole.trans h, if_true, List.prefix_rfl]
    · simp only [hwhole, if_false, List.nil_prefix]
  ends_mono h hwhole := ⟨hwhole.trans h, by simp only [plainOf, hwhole, hwhole.trans h, if_true]⟩
  damaged_mono h := mt fun hcs =>
    hcs.elim (fun hcs => List.prefix_or_prefix_of_prefix hcs h) fun hcs => .inr (h.trans hcs)
  not_damaged h hdamaged := hdamaged (.inl h)
  given hopen h := total_append_feedStream hopen h ▸ List.prefix_rfl
  last_iff _ h := (feedStream_eq_ok h).2
  complete hopen h := total_append_feedStream hopen h
  refused _ h := feedStream_eq_error h

/-- The decompressor of a stream holds nothing back. -/
theorem Unpacker.eager_ofStream : (Unpacker.ofStream stream data why).Eager := by
  intro fed piece got last hopen h
  refine ⟨total_append_feedStream hopen h, fun hdamaged => ?_⟩
  unfold Unpacker.ofStream feedStream at h
  dsimp only at h
  rw [if_neg hdamaged] at h
  cases h

/-! ### Archives of one packed member -/

/-- The data `hi` as `lzma` packs them for an archive. -/
def hiLzma : Bytes :=
  [9, 4, 5, 0, 93, 0, 0, 128, 0, 0, 52, 26, 92, 255, 255, 255, 255, 240, 0, 0, 0]

/-- The same data as `bz2` packs them. -/
def hiBzip2 : Bytes :=
  [66, 90, 104, 57, 49, 65, 89, 38, 83, 89, 154, 137, 180, 34, 0, 0, 0, 1, 0, 0, 96, 32, 0, 33, 0,
    130, 177, 119, 36, 83, 133, 9, 9, 168, 155, 66, 32]

/-- The decompressors of these. -/
def hiTools : Tools where
  bzip2 := some (.ofStream hiBzip2 [0x68, 0x69] ⟨.system, "Invalid data stream"⟩)
  lzma := some ⟨.ofStream hiLzma [0x68, 0x69] ⟨.other "LZMAError", "Corrupt input data"⟩,
    Unpacker.eager_ofStream⟩

/-- The file of an archive of which the only member is these data, as they are packed by a
method. -/
def packedFile (method : UInt8) (packed : Bytes) : Bytes :=
  let length := UInt8.ofNat packed.length
  let fields : Bytes :=
    [63, 0, 0, 0, method, 0, 0, 0, 0, 0, 0xac, 0x2a, 0x93, 0xd8, length, 0, 0, 0, 2, 0, 0, 0, 1, 0]
  [0x50, 0x4b, 3, 4] ++ fields ++ [0, 0, 0x61] ++ packed ++
    [0x50, 0x4b, 1, 2, 63, 0] ++ fields ++ List.replicate 16 0 ++ [0x61] ++
    [0x50, 0x4b, 5, 6, 0, 0, 0, 0, 1, 0, 1, 0, 47, 0, 0, 0, 31 + length, 0, 0, 0, 0, 0]

/-- The data of the members of the archive in a file, as far as they can be read. -/
def contents? (tools : Tools) (file : Bytes) : Option (List (Option Bytes)) :=
  (Archive.ofFile tools [] file).toOption.map fun a =>
    a.members.map fun m => (a.readMember m).toOption

/-- Packed members are read. -/
theorem contents?_packedFile :
    contents? hiTools (packedFile 14 hiLzma) = some [some [0x68, 0x69]] ∧
    contents? hiTools (packedFile 12 hiBzip2) = some [some [0x68, 0x69]] := by
  decide +kernel

end EntryRef.Zip
