import EntryRef.Proofs.Scratch.Disk
import Mathlib.Data.List.Infix

/-!
# Programs with scratch directories

Whatever a program does, and wherever it stops, the disk stays orderly, objects that the program
does not use stay open or closed as they are, and the files of a directory stay as they are unless
the program uses an object that has its directory above. This is said of the single steps first, as
`Disk.Follows`, and then of programs by induction.

An object whose directory has been made in that of another depends on it: the other one takes the
files of the first along when it is closed (`Disk.objects_after_run_nested`).

## Main statements

* `Disk.follows_run`: what a program keeps,
* `Disk.objects_after_run`: what holds of every object after every program.
-/

namespace EntryRef.Scratch

open Text

namespace Disk

variable {s : Surroundings} {disk mid after : Disk} {i : Nat} {d : Directory} {p : Place}
  {fresh : Text}

/-! ### Disks that follow -/

/-- Disks follow one another as objects are made and some are `used`. -/
structure Follows (s : Surroundings) (used : Nat → Prop) (disk after : Disk) : Prop where
  /-- It is remembered where directories have been made. -/
  made : disk.made <+: after.made
  /-- Objects stay, and stay closed. -/
  owners : ∀ (i : Nat) (o : Owner), disk.owners[i]? = some o → ∃ o' : Owner,
    after.owners[i]? = some o' ∧ o'.path = o.path ∧ o'.autoClean = o.autoClean ∧
      (o.closed → o'.closed)
  /-- Objects that are not used stay as they are. -/
  unused : ∀ (i : Nat) (o : Owner), disk.owners[i]? = some o → ¬used i →
    after.owners[i]? = some o
  /-- New objects have directories that have been made meanwhile. -/
  added : ∀ (i : Nat) (o : Owner), disk.owners.length ≤ i → after.owners[i]? = some o →
    placeOf o.path ∈ after.sites.drop disk.sites.length
  /-- The disk stays orderly. -/
  orderly : disk.Orderly s → after.Fresh s → after.Orderly s
  /-- The files of a directory stay as they are if no object that is used has one above. -/
  frame : disk.Orderly s → after.Fresh s → ∀ p ∈ disk.sites,
    (∀ (i : Nat) (o : Owner), used i → disk.owners[i]? = some o → ¬placeOf o.path <+: p) →
      after.files p = disk.files p

variable {used : Nat → Prop}

/-- A directory that is made later is not above one that there is. -/
theorem Orderly.not_isPrefix_of_later (ho : disk.Orderly s) (hf : after.Fresh s)
    (hmade : disk.made <+: after.made) {q : Place} (hq : q ∈ after.sites.drop disk.sites.length)
    (hp : p ∈ disk.sites) : ¬q <+: p := by
  have hlater : q ∉ disk.sites := by
    obtain ⟨more, hmore⟩ := hmade.map placeOf
    have hnodup := hf.nodup
    change disk.sites ++ more = after.sites at hmore
    rw [← hmore] at hnodup hq
    rw [List.drop_left] at hq
    exact fun h => List.disjoint_of_nodup_append hnodup h hq
  have hnew : ¬s.hasDirectory q := hf.new q (List.mem_of_mem_drop hq)
  intro hprefix
  by_cases heq : q = p
  · exact hlater (heq ▸ hp)
  · exact (ho.rooted p hp q hprefix heq).elim hnew hlater

namespace Follows

theorem refl (disk : Disk) : Follows s used disk disk where
  made := List.prefix_rfl
  owners _ o h := ⟨o, h, rfl, rfl, id⟩
  unused _ _ h _ := h
  added _ _ hi h := absurd (List.getElem?_eq_some_iff.mp h).1 (Nat.not_lt.mpr hi)
  orderly ho _ := ho
  frame _ _ _ _ _ := rfl

theorem trans (h : Follows s used disk mid) (h' : Follows s used mid after) :
    Follows s used disk after where
  made := h.made.trans h'.made
  owners i o hi := by
    obtain ⟨o', hi', hpath, hclean, hclosed⟩ := h.owners i o hi
    obtain ⟨o'', hi'', hpath', hclean', hclosed'⟩ := h'.owners i o' hi'
    exact ⟨o'', hi'', hpath'.trans hpath, hclean'.trans hclean, hclosed' ∘ hclosed⟩
  unused i o hi hu := h'.unused i o (h.unused i o hi hu) hu
  added i o hlt hi := by
    rcases Nat.lt_or_ge i mid.owners.length with hmid | hmid
    · obtain ⟨o', ho', hpath, -, -⟩ := h'.owners i _ (List.getElem?_eq_getElem hmid)
      obtain rfl : o = o' := Option.some.inj (hi.symm.trans ho')
      have hplace := h.added i _ hlt (List.getElem?_eq_getElem hmid)
      rw [← hpath] at hplace
      exact ((h'.made.map placeOf).drop _).subset hplace
    · have hle : disk.sites.length ≤ mid.sites.length := (h.made.map placeOf).length_le
      exact (List.drop_sublist_drop_left _ hle).subset (h'.added i o hmid hi)
  orderly ho hf := h'.orderly (h.orderly ho (hf.of_isPrefix h'.made)) hf
  frame ho hf p hp hused := by
    have hmid : mid.Fresh s := hf.of_isPrefix h'.made
    have hfirst := h.frame ho hmid p hp hused
    refine (h'.frame (h.orderly ho hmid) hf p ((h.made.map placeOf).subset hp) ?_).trans hfirst
    intro i o hi howner
    rcases Nat.lt_or_ge i disk.owners.length with hlt | hlt
    · -- the object was there, with the same directory
      have hbefore := List.getElem?_eq_getElem hlt
      obtain ⟨o', ho', hpath, -, -⟩ := h.owners i _ hbefore
      obtain rfl : o = o' := Option.some.inj (howner.symm.trans ho')
      rw [hpath]
      exact hused i _ hi hbefore
    · exact ho.not_isPrefix_of_later hmid h.made (h.added i o hlt howner) hp

/-- An object keeps its files if no object that is used has its directory above. -/
theorem directory? (h : Follows s used disk after) (ho : disk.Orderly s) (hf : after.Fresh s)
    (hd : disk.directory? i = some d)
    (hused : ∀ j e, used j → disk.directory? j = some e → ¬placeOf e.path <+: placeOf d.path) :
    after.directory? i = some d := by
  obtain ⟨howner, -⟩ := directory?_eq_some.mp hd
  have hi : ¬used i := fun hi => hused i d hi hd List.prefix_rfl
  refine directory?_of_files_eq hd ((h.unused i _ howner hi).trans howner.symm)
    (h.frame ho hf _ (ho.mem_sites howner) fun j o hj hjo => ?_)
  obtain ⟨e, he, rfl⟩ := exists_directory?_of_owner hjo
  exact hused j e hj he

end Follows

/-! ### Making an object -/

/-- Files stay as they are when a directory is made. -/
theorem files_mkdir_of_mem_sites {path : Text} (hf : (disk.mkdir path).Fresh s)
    (hp : p ∈ disk.sites) : (disk.mkdir path).files p = disk.files p :=
  files_put_of_ne (ne_of_mem_sites hf hp)

private theorem follows_lost (hparent : (disk.around s fresh).HasParent (placeOf d.path)) :
    Follows s used disk ((disk.mkdir d.path).clear d) := by
  have hfresh : ((disk.mkdir d.path).clear d).Fresh s → (disk.mkdir d.path).Fresh s :=
    fun hf => hf.congr (made_clear _ d)
  have howners : ((disk.mkdir d.path).clear d).owners = disk.owners := owners_clear _ _
  exact {
    made := by
      rw [made_clear]
      exact List.prefix_append _ _
    owners := by
      rw [howners]
      exact fun _ o h => ⟨o, h, rfl, rfl, id⟩
    unused := by
      rw [howners]
      exact fun _ _ h _ => h
    added := by
      rw [howners]
      exact fun i o hi h => absurd (List.getElem?_eq_some_iff.mp h).1 (Nat.not_lt.mpr hi)
    orderly := fun ho hf => ho.lost (hfresh hf) hparent
    frame := by
      intro ho hf p hp _
      by_cases hd : (d.autoClean && !d.closed) = true
      · rw [ho.files_clear_mkdir (hfresh hf) hd]
      · rw [clear, if_neg hd]
        exact files_mkdir_of_mem_sites (hfresh hf) hp }

/-- A new object has the empty directory that has been made for it. -/
theorem directory?_own (hempty : d.files = some []) :
    (disk.own d).directory? disk.owners.length = some d := by
  refine directory?_eq_some.mpr ⟨List.getElem?_concat_length, ?_⟩
  rw [hempty]
  exact files_put_self ..

private theorem follows_own (hopen : d.closed = false)
    (hparent : (disk.around s fresh).HasParent (placeOf d.path)) :
    Follows s used disk (disk.own d) where
  made := List.prefix_append _ _
  owners _ o h := ⟨o, getElem?_owners_own h, rfl, rfl, id⟩
  unused _ _ h _ := getElem?_owners_own h
  added i o hi h := by
    have hsites : (disk.own d).sites = disk.sites ++ [placeOf d.path] := sites_mkdir disk d.path
    have howner : o = d.owner := by
      change (disk.owners ++ [d.owner])[i]? = some o at h
      rw [List.getElem?_append_right hi, List.getElem?_singleton] at h
      split at h
      · exact (Option.some.inj h).symm
      · cases h
    rw [hsites, List.drop_left, howner]
    exact List.mem_singleton_self _
  orderly ho hf := ho.own hf hopen hparent
  frame ho hf p hp _ := by
    have hf' : (disk.mkdir d.path).Fresh s := ⟨hf.nodup, hf.new⟩
    exact files_mkdir_of_mem_sites hf' hp

theorem follows_openAt (hs : s.Settled) (used : Nat → Prop) (disk : Disk) (fresh : Text)
    (default : Option Text) (r : Request) :
    Follows s used disk (disk.openAt s fresh default r).2 := by
  have hs' : (disk.around s fresh).Settled := ⟨hs.absolute, hs.isSegment, hs.straight⟩
  rcases openDirectory_cases hs' default r with
    ⟨e, he, hmade⟩ | ⟨d, hopen, -, hplace, ⟨hok, -⟩ | ⟨e, he, hmade⟩⟩
  · simp only [openAt, he, hmade]
    exact .refl disk
  · simp only [openAt, hok]
    exact follows_own hopen hplace
  · simp only [openAt, he, hmade]
    exact follows_lost hplace

/-! ### Using an object -/

theorem follows_create (hi : used i) (start stop : Text) (tokens : List Text) :
    Follows s used disk (disk.create i start stop tokens).2.1 := by
  have howners := disk.owners_create i start stop tokens
  exact {
    made := (disk.made_create i start stop tokens).symm ▸ List.prefix_rfl
    owners := by
      rw [howners]
      exact fun _ o h => ⟨o, h, rfl, rfl, id⟩
    unused := by
      rw [howners]
      exact fun _ _ h _ => h
    added := by
      rw [howners]
      exact fun j o hj h => absurd (List.getElem?_eq_some_iff.mp h).1 (Nat.not_lt.mpr hj)
    orderly := fun ho _ => ho.create i start stop tokens
    frame := by
      intro _ _ p _ hused
      cases howner : disk.owners[i]? with
      | none => rw [create, howner]
      | some o =>
        exact files_create_of_not_isPrefix howner (hused i o hi howner) start stop tokens }

theorem follows_close (hi : used i) : Follows s used disk (disk.close i) := by
  cases h : disk.directory? i with
  | none =>
    rw [close, h]
    exact .refl disk
  | some d =>
    obtain ⟨howner, -⟩ := directory?_eq_some.mp h
    have hlength : (disk.close i).owners.length = disk.owners.length := by
      rw [close_of_directory? h]
      exact List.length_set
    exact {
      made := disk.made_close i ▸ List.prefix_rfl
      owners := by
        intro j o ho
        by_cases hij : i = j
        · subst hij
          obtain rfl : d.owner = o := Option.some.inj (howner.symm.trans ho)
          exact ⟨d.close.owner, (directory?_eq_some.mp (directory?_close_self h)).1, rfl, rfl,
            fun _ => rfl⟩
        · exact ⟨o, (disk.getElem?_owners_close_of_ne hij).trans ho, rfl, rfl, id⟩
      unused := by
        intro j o ho hj
        have hij : i ≠ j := fun heq => hj (heq ▸ hi)
        exact (disk.getElem?_owners_close_of_ne hij).trans ho
      added := fun j o hj ho => absurd (List.getElem?_eq_some_iff.mp ho).1
        (Nat.not_lt.mpr (hlength ▸ hj))
      orderly := fun ho _ => ho.close i
      frame := fun _ _ p _ hused =>
        files_close_of_not h fun hclean => hused i _ hi howner hclean.2 }

/-! ### Programs -/

variable {ε : Type}

/-- What one thing after another leads to is what the first one leads to, or what the second one
leads to from there. -/
theorem run_andThen_cases (s : Surroundings) (p q : Program ε) (disk : Disk) :
    (((Program.andThen p q).run s disk).2 = (p.run s disk).2) ∨
      ((Program.andThen p q).run s disk).2 = (q.run s (p.run s disk).2).2 := by
  rw [Program.run]
  split
  · next heq =>
    rw [heq]
    exact .inr rfl
  · next heq =>
    rw [heq]
    exact .inl rfl

private theorem run_create (s : Surroundings) (i : Nat) (start stop : Text) (tokens : List Text)
    (disk : Disk) : ((Program.create i start stop tokens : Program ε).run s disk).2 =
      (disk.create i start stop tokens).2.1 := by
  rw [Program.run]
  split
  · next heq => rw [heq]
  · next heq => rw [heq]

/-- A block closes its object, however it is left, and what leaves it goes on. -/
theorem run_scope (h : disk.directory? i = some d) (s : Surroundings) (body : Program ε) :
    (Program.scope i body).run s disk =
      ((body.run s disk).1, (body.run s disk).2.close i) := by
  rw [Program.run, h, Option.isSome_some, if_pos rfl]

/-- **Programs.** A program leads to a disk that follows. -/
theorem follows_run (hs : s.Settled) (p : Program ε) (hused : ∀ i ∈ p.uses, used i)
    (disk : Disk) : Follows s used disk (p.run s disk).2 := by
  -- the parts of a program run on disks of their own, so that the disk is not fixed
  induction p generalizing disk with
  | nothing => exact .refl disk
  | andThen p q ihp ihq =>
    have hp := ihp (fun i hi => hused i (List.mem_append_left _ hi)) disk
    have hq := ihq (fun i hi => hused i (List.mem_append_right _ hi)) (p.run s disk).2
    rcases run_andThen_cases s p q disk with h | h
    · rw [h]
      exact hp
    · rw [h]
      exact hp.trans hq
  | make fresh default r => exact follows_openAt hs used disk fresh default r
  | create i start stop tokens =>
    rw [run_create]
    exact follows_create (hused i (List.mem_singleton_self i)) start stop tokens
  | close i => exact follows_close (hused i (List.mem_singleton_self i))
  | raise e => exact .refl disk
  | scope i body ih =>
    have hbody := ih (fun j hj => hused j (List.mem_cons_of_mem i hj)) disk
    have hclose : used i := hused i List.mem_cons_self
    cases h : disk.directory? i with
    | none =>
      rw [Program.run, h]
      exact .refl disk
    | some d =>
      rw [run_scope h]
      exact hbody.trans (follows_close hclose)
  | attempt body ih => exact ih hused disk

/-- **Objects.** Whatever a program has done, and wherever it has stopped, the directory of an
object is there with its files unless that object, or one in whose directory it is, has been closed
and was not to keep its own. If an object is closed, it makes no file. Closing it, by itself or on
the way out of a block, removes its directory with everything that is in it and nothing else, or
nothing at all if that is to be kept; what leaves the block goes on. What is done without the object
leaves it open or closed as it is, and leaves its files as they are too if it is done without the
objects in whose directories its own is. -/
theorem objects_after_run (hs : s.Settled) {files : Place → Option (List File)}
    (hfiles : ∀ p, files p ≠ none → s.hasDirectory p) (p : Program ε)
    (hrun : (p.run s (start files)).2 = disk) (hf : disk.Fresh s)
    (h : disk.directory? i = some d) :
    (d.files = none ↔ disk.Gone (placeOf d.path)) ∧
    (d.closed → ∀ first last tokens, (Program.create i first last tokens : Program ε).run s disk =
      (.error (.notCreated .closed), disk)) ∧
    (∃ after, (Program.close i : Program ε).run s disk = (.ok (), after) ∧
      Closes i d disk after) ∧
    (∀ body : Program ε, (body.run s disk).2.Fresh s → ∃ e after,
      (body.run s disk).2.directory? i = some e ∧ e.path = d.path ∧ e.autoClean = d.autoClean ∧
        (Program.scope i body).run s disk = ((body.run s disk).1, after) ∧
        Closes i e (body.run s disk).2 after) ∧
    (∀ q : Program ε, (q.run s disk).2.Fresh s →
      (i ∉ q.uses → (q.run s disk).2.owners[i]? = disk.owners[i]?) ∧
      ((∀ j e, j ∈ q.uses → disk.directory? j = some e →
          ¬placeOf e.path <+: placeOf d.path) →
        (q.run s disk).2.directory? i = some d)) := by
  have hfollows := follows_run hs p (fun _ hi => hi) (start files)
  rw [hrun] at hfollows
  have ho : disk.Orderly s := hfollows.orderly (.start hfiles) hf
  obtain ⟨howner, hplace⟩ := directory?_eq_some.mp h
  refine ⟨?_, ?_, ⟨disk.close i, rfl, ho.closes h⟩, ?_, ?_⟩
  · rw [← hplace]
    exact ho.gone d.owner (List.mem_of_getElem? howner)
  · intro hclosed first last tokens
    rw [Program.run, create_of_closed howner hclosed]
  · intro body hbody
    -- the body may use the object, but does not exchange it
    have hfollows := follows_run hs body (fun _ hi => hi) disk
    obtain ⟨o, ho', hpath, hclean, -⟩ := hfollows.owners i d.owner howner
    obtain ⟨e, he, rfl⟩ := exists_directory?_of_owner ho'
    exact ⟨e, _, he, hpath, hclean, run_scope h s body, (hfollows.orderly ho hbody).closes he⟩
  · intro q hnew
    have hfollows := follows_run hs q (fun _ hi => hi) disk
    exact ⟨fun hq => (hfollows.unused i d.owner howner hq).trans howner.symm,
      fun hq => hfollows.directory? ho hnew h hq⟩

/-- The surroundings of the programs below, with a directory for temporary files. -/
def bareSurroundings : Surroundings :=
  ⟨["/tmp".toList], "/tmp".toList, none, [], .ofText "/".toList, []⟩

private theorem settled_bareSurroundings : bareSurroundings.Settled :=
  ⟨rfl, nofun, List.not_mem_nil⟩

/-- Of two objects in one directory, the first one makes a file and is left by an exception. Its
file is gone with its directory, and the other object has its own file nevertheless. -/
theorem objects_after_run_two :
    let p : Program Unit :=
      .andThen (.make "a".toList (some firstName) ⟨none, none, true⟩) <|
      .andThen (.make "b".toList (some firstName) ⟨none, none, false⟩) <|
      .andThen (.create 1 "B".toList ".kt".toList ["0".toList]) <|
      .scope 0 (.andThen (.create 0 "A".toList ".class".toList ["1".toList]) (.raise ()))
    (p.run bareSurroundings (start fun _ => none)).1 = .error (.raised ()) ∧
      ∃ disk, (p.run bareSurroundings (start fun _ => none)).2 = disk ∧
        bareSurroundings.Settled ∧ disk.Fresh bareSurroundings ∧
        disk.directory? 0 = some ⟨"/tmp/tmpaklsurl".toList, true, true, none⟩ ∧
        (Program.create 0 [] [] ["2".toList] : Program Unit).run bareSurroundings disk =
          (.error (.notCreated .closed), disk) ∧
        disk.directory? 1 =
          some ⟨"/tmp/tmpbklsurl".toList, false, false, some [⟨"B0.kt".toList, []⟩]⟩ ∧
        (disk.close 0).directory? 1 = disk.directory? 1 := by
  intro p
  have hfiles : ∀ q : Place, (none : Option (List File)) ≠ none →
      bareSurroundings.hasDirectory q := fun _ h => absurd rfl h
  have hresult : (p.run bareSurroundings (start fun _ => none)).1 = .error (.raised ()) := by
    decide +kernel
  refine ⟨hresult, ?_⟩
  obtain ⟨disk, hrun⟩ : ∃ disk, (p.run bareSurroundings (start fun _ => none)).2 = disk :=
    ⟨_, rfl⟩
  have hsites : disk.sites =
      [["tmp".toList, "tmpaklsurl".toList], ["tmp".toList, "tmpbklsurl".toList]] := by
    rw [← hrun]
    decide +kernel
  have hf : disk.Fresh bareSurroundings := by
    refine ⟨?_, ?_⟩
    · rw [hsites]
      decide
    · rw [hsites]
      decide
  have hfirst : disk.directory? 0 = some ⟨"/tmp/tmpaklsurl".toList, true, true, none⟩ := by
    rw [← hrun]
    decide +kernel
  have hsecond : disk.directory? 1 =
      some ⟨"/tmp/tmpbklsurl".toList, false, false, some [⟨"B0.kt".toList, []⟩]⟩ := by
    rw [← hrun]
    decide +kernel
  obtain ⟨-, hclosed, -⟩ := objects_after_run settled_bareSurroundings hfiles p hrun hf hfirst
  obtain ⟨-, -, -, -, hframe⟩ :=
    objects_after_run settled_bareSurroundings hfiles p hrun hf hsecond
  have hclose : (disk.close 0).directory? 1 = disk.directory? 1 := by
    rw [hsecond]
    refine (hframe (.close 0) (hf.congr (made_close disk 0).symm)).2 fun j e hj he => ?_
    obtain rfl : j = 0 := List.mem_singleton.mp hj
    rw [← Option.some.inj (hfirst.symm.trans he)]
    decide
  exact ⟨disk, hrun, settled_bareSurroundings, hf, hfirst, hclosed rfl [] [] ["2".toList], hsecond,
    hclose⟩

/-- The second object has its directory in that of the first one, and makes a file. Closing the
first object takes it away, although the second one stays open. -/
theorem objects_after_run_nested :
    let p : Program Unit :=
      .andThen (.make "a".toList (some firstName) ⟨none, none, true⟩) <|
      .andThen (.make "b".toList (some firstName) ⟨none, some "/tmp/tmpaklsurl".toList, true⟩) <|
      .create 1 "B".toList ".kt".toList ["0".toList]
    (p.run bareSurroundings (start fun _ => none)).1 = .ok () ∧
      ∃ disk, (p.run bareSurroundings (start fun _ => none)).2 = disk ∧
        bareSurroundings.Settled ∧ disk.Fresh bareSurroundings ∧
        disk.directory? 1 = some ⟨"/tmp/tmpaklsurl/tmpbklsurl".toList, true, false,
          some [⟨"B0.kt".toList, []⟩]⟩ ∧
        (disk.close 0).directory? 1 =
          some ⟨"/tmp/tmpaklsurl/tmpbklsurl".toList, true, false, none⟩ := by
  intro p
  refine ⟨by decide +kernel, _, rfl, settled_bareSurroundings, ⟨?_, ?_⟩, ?_, ?_⟩
  · decide +kernel
  · decide +kernel
  · decide +kernel
  · decide +kernel

end Disk

end EntryRef.Scratch
