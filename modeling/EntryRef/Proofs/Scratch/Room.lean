import EntryRef.Proofs.Scratch.Program
import EntryRef.Scratch.Room

/-!
# Labels and objects

A step under a label of a `Room` uses the object with that label and no other one, so that the disk
follows as it does after a program (`Room.follows_openAt`, `Room.follows_create`,
`Room.follows_close`). Therefore the directory under another label stays as it is, unless it is in
that of the object (`Room.get?_of_ne`).

An object that loses its label is closed, since nothing refers to it any more
(`Room.closed_of_openAt`).
-/

namespace EntryRef.Scratch.Room

open Text
open Disk (Follows)

variable {room after : Room} {label other : Text} {i : Nat} {d : Directory} {r : Request}

/-! ### Labels -/

private theorem lookup_filter_ne {α : Type} {xs : List (Text × α)} {a b : Text} (h : a ≠ b) :
    (xs.filter fun entry => entry.1 != b).lookup a = xs.lookup a := by
  induction xs with
  | nil => rfl
  | cons x xs ih =>
    by_cases hx : x.1 = b
    · have hax : (a == x.1) = false := beq_eq_false_iff_ne.mpr fun heq => h (heq.trans hx)
      rw [List.filter_cons_of_neg (by simp [hx]), ih, List.lookup_cons, hax]
    · rw [List.filter_cons_of_pos (by simp [hx]), List.lookup_cons, List.lookup_cons, ih]

@[simp]
theorem labels_close (room : Room) (label : Text) : (room.close label).labels = room.labels := by
  rw [close]
  split
  · rfl
  · rfl

@[simp]
theorem labels_create (room : Room) (label start stop : Text) :
    (room.create label start stop).2.labels = room.labels := by
  rw [create]
  split
  · rfl
  · rfl

/-- Making an object for a label fails and gives no label, or closes the object that has had it. -/
theorem openAt_cases (room : Room) (label : Text) (r : Request) :
    let disk := (room.disk.openAt room.surroundings (room.fresh.headD []) room.defaultName r).2
    let made : Room := { room with disk := disk, fresh := room.fresh.tail }
    (∃ why, room.openAt label r = (.error why, made)) ∨
      room.openAt label r = (.ok (), { made.close label with
        labels := (label, room.disk.owners.length) ::
          room.labels.filter fun entry => entry.1 != label }) := by
  intro disk made
  rcases hopen : room.disk.openAt room.surroundings (room.fresh.headD []) room.defaultName r with
    ⟨why | ⟨⟩, x⟩
  · refine .inl ⟨why, ?_⟩
    simp only [openAt, hopen, made, disk]
  · refine .inr ?_
    simp only [openAt, hopen, made, disk, labels_close]

/-- The other labels stay with their objects. -/
theorem lookup_openAt_of_ne (h : other ≠ label) :
    (room.openAt label r).2.labels.lookup other = room.labels.lookup other := by
  rcases room.openAt_cases label r with ⟨why, heq⟩ | heq
  · rw [heq]
  · rw [heq]
    change List.lookup other (_ :: _) = _
    rw [List.lookup_cons, beq_eq_false_iff_ne.mpr h]
    exact lookup_filter_ne h

/-! ### Steps -/

/-- Closing is a step of the disk that touches the object with the label alone. -/
theorem follows_close (s : Surroundings) (room : Room) (label : Text) :
    Follows s (room.labels.lookup label = some ·) room.disk (room.close label).disk := by
  rw [close]
  split
  · exact .refl _
  · next i hi => exact Disk.follows_close hi

/-- Making a file is one too. -/
theorem follows_create (s : Surroundings) (room : Room) (label start stop : Text) :
    Follows s (room.labels.lookup label = some ·) room.disk
      (room.create label start stop).2.disk := by
  rw [create]
  split
  · exact .refl _
  · next i hi => exact Disk.follows_create hi start stop room.tokens

/-- Making an object is a step that touches no object, or the one whose label it takes. -/
theorem follows_openAt (hs : room.surroundings.Settled) (label : Text) (r : Request) :
    Follows room.surroundings (room.labels.lookup label = some ·) room.disk
      (room.openAt label r).2.disk := by
  have hmade : Follows room.surroundings (room.labels.lookup label = some ·) room.disk
      (room.disk.openAt room.surroundings (room.fresh.headD []) room.defaultName r).2 :=
    Disk.follows_openAt hs _ _ _ _ r
  rcases room.openAt_cases label r with ⟨why, h⟩ | h
  · rw [h]
    exact hmade
  · rw [h]
    exact hmade.trans (follows_close room.surroundings
      { room with
        disk := (room.disk.openAt room.surroundings (room.fresh.headD []) room.defaultName r).2
        fresh := room.fresh.tail } label)

private theorem get?_of_follows {s : Surroundings}
    (hfollows : Follows s (room.labels.lookup label = some ·) room.disk after.disk)
    (ho : room.disk.Orderly s) (hf : after.disk.Fresh s)
    (hlabel : after.labels.lookup other = room.labels.lookup other)
    (hd : room.get? other = some d)
    (hapart : ∀ e, room.get? label = some e → ¬placeOf e.path <+: placeOf d.path) :
    after.get? other = some d := by
  obtain ⟨i, hi, hdirectory⟩ := Option.bind_eq_some_iff.mp hd
  rw [get?, hlabel, hi]
  refine hfollows.directory? ho hf hdirectory fun j e hj he => hapart e ?_
  rw [get?, hj]
  exact he

/-- **Frames.** A step under one label leaves the directory under another one as it is, unless that
is in the directory under the first label. -/
theorem get?_of_ne (hs : room.surroundings.Settled) (ho : room.disk.Orderly room.surroundings)
    (hf : room.disk.Fresh room.surroundings) (hother : other ≠ label)
    (hd : room.get? other = some d)
    (hapart : ∀ e, room.get? label = some e → ¬placeOf e.path <+: placeOf d.path) :
    (∀ r, (room.openAt label r).2.disk.Fresh room.surroundings →
      (room.openAt label r).2.get? other = some d) ∧
    (∀ start stop, (room.create label start stop).2.get? other = some d) ∧
    (room.close label).get? other = some d := by
  refine ⟨fun r hnew => ?_, fun start stop => ?_, ?_⟩
  · exact get?_of_follows (follows_openAt hs label r) ho hnew (lookup_openAt_of_ne hother) hd hapart
  · refine get?_of_follows (follows_create room.surroundings room label start stop) ho
      (hf.congr ?_) (by rw [labels_create]) hd hapart
    rw [create]
    split
    · rfl
    · exact (room.disk.made_create _ start stop room.tokens).symm
  · refine get?_of_follows (follows_close room.surroundings room label) ho (hf.congr ?_)
      (by rw [labels_close]) hd hapart
    rw [close]
    split
    · rfl
    · exact (room.disk.made_close _).symm

/-- An object that loses its label to a new one is closed. -/
theorem closed_of_openAt (hs : room.surroundings.Settled) (hi : room.labels.lookup label = some i)
    (hd : room.disk.directory? i = some d) (hok : (room.openAt label r).1 = .ok ()) :
    ∃ e, (room.openAt label r).2.disk.directory? i = some e ∧ e.path = d.path ∧ e.closed := by
  rcases room.openAt_cases label r with ⟨why, heq⟩ | heq
  · rw [heq] at hok
    cases hok
  · have hmade : Follows room.surroundings (fun _ => False) room.disk
        (room.disk.openAt room.surroundings (room.fresh.headD []) room.defaultName r).2 :=
      Disk.follows_openAt hs _ _ _ _ r
    obtain ⟨o, howner, hpath, -⟩ := hmade.owners i _ (Disk.directory?_eq_some.mp hd).1
    obtain ⟨e, he, rfl⟩ := Disk.exists_directory?_of_owner howner
    rw [heq]
    refine ⟨e.close, ?_, hpath, rfl⟩
    simp only [close, hi]
    exact Disk.directory?_close_self he

end EntryRef.Scratch.Room
