import EntryRef.Zip.Archive

/-!
# Which faults come up where

`FailsOnly p x` says that a computation has no failures but those with the property `p`. It is
proved of what reads archives function by function, as these are put together: what opens an archive
has faults of its format, besides names that are not UTF-8 and versions that are too new
(`failsOnly_readDirectory`), and what reads a member of an open archive never says that the archive
is closed (`failsOnly_readMember`).

From this the faults are told apart by whether somebody deals with their kinds.
`Fault.EscapesOpening` are the faults that nobody deals with where an archive is opened, and
`Fault.EscapesReading` those that nobody deals with where a member is read.
-/

namespace EntryRef

variable {ε α β : Type} {p q : ε → Prop}

/-- Every failure has the property. -/
def FailsOnly (p : ε → Prop) (x : Except ε α) : Prop := ∀ e, x = .error e → p e

namespace FailsOnly

/-- What succeeds has no failures. -/
theorem ok (p : ε → Prop) (a : α) : FailsOnly p (.ok a) := by
  intro e he
  cases he

/-- A failure with the property is the only one there is. -/
theorem error {e : ε} (h : p e) : FailsOnly p (.error e : Except ε α) := by
  intro e' he
  cases he
  exact h

/-- A failure has the property if it is a failure with it. -/
theorem error_iff {e : ε} : FailsOnly p (.error e : Except ε α) ↔ p e :=
  ⟨fun h => h e rfl, error⟩

/-- Failures of two steps are those of the first and those of the second, wherever it starts. -/
theorem bind {x : Except ε α} {f : α → Except ε β} (hx : FailsOnly p x)
    (hf : ∀ a, FailsOnly p (f a)) : FailsOnly p (x >>= f) := by
  intro e he
  cases h : x with
  | error e' =>
    rw [h] at he
    cases he
    exact hx e h
  | ok a =>
    rw [h] at he
    exact hf a e he

/-- What is made of a result has no failures of its own. -/
theorem map {x : Except ε α} (hx : FailsOnly p x) (f : α → β) : FailsOnly p (x.map f) := by
  intro e he
  cases h : x with
  | error e' =>
    rw [h] at he
    cases he
    exact hx e h
  | ok a =>
    rw [h] at he
    cases he

/-- Either way of a choice has the failures that it has. -/
theorem ite {c : Prop} [Decidable c] {x y : Except ε α} (hx : FailsOnly p x) (hy : FailsOnly p y) :
    FailsOnly p (if c then x else y) := by
  split
  · exact hx
  · exact hy

/-- What would be done behind a failure does not matter. -/
theorem throw_bind {e : ε} (he : p e) (f : β → Except ε α) : FailsOnly p (throw e >>= f) :=
  error he

/-- A check that fails in one way, before the rest is done. -/
theorem check {c : Prop} [Decidable c] {e : ε} {f : Unit → Except ε α} (he : p e)
    (hf : FailsOnly p (f ())) : FailsOnly p (if c then throw e >>= f else f ()) :=
  ite (throw_bind he f) hf

/-- The property may be made weaker. -/
theorem mono {x : Except ε α} (h : FailsOnly p x) (hpq : ∀ e, p e → q e) : FailsOnly q x :=
  fun e he => hpq e (h e he)

end FailsOnly

namespace Zip

open Text

/-! ### Kinds of faults -/

/-- The faults that nobody deals with where an archive is opened. -/
inductive Fault.EscapesOpening : Fault → Prop
  | badName (why : DecodeFault) : EscapesOpening (.badName why)
  | version (tenths : Nat) : EscapesOpening (.version tenths)

/-- The faults that nobody deals with where a member is read. -/
inductive Fault.EscapesReading : Fault → Prop
  | badName (why : DecodeFault) : EscapesReading (.badName why)
  | beyondNumbers : EscapesReading .beyondNumbers
  | emptyName : EscapesReading .emptyName
  | unpacking (why : Trouble) (hkind : why.kind.isReading = false) :
    EscapesReading (.unpacking why)

/-- A fault that a member may have is dealt with, unless it is one of four. -/
theorem Fault.isReading_iff {f : Fault} (h : f ≠ .closed) :
    f.kind.isReading = true ↔ ¬f.EscapesReading := by
  constructor
  · rintro hf (_ | _ | _ | ⟨why, hkind⟩)
    · cases hf
    · cases hf
    · cases hf
    · exact absurd (hkind.symm.trans hf) (by decide)
  · intro hf
    cases f with
    | badName why => exact absurd (.badName why) hf
    | beyondNumbers => exact absurd .beyondNumbers hf
    | emptyName => exact absurd .emptyName hf
    | closed => exact absurd rfl h
    | unpacking why => exact Bool.of_not_eq_false fun hkind => hf (.unpacking why hkind)
    | _ => rfl

/-! ### The directory -/

/-- The faults of a directory. -/
def Fault.OfDirectory (f : Fault) : Prop := f.kind = .badArchive ∨ f.EscapesOpening

/-- What reads the end of the directory tells faults of the directory. -/
private theorem failsOnly_readEnd (file : Bytes) (place : Nat) :
    FailsOnly Fault.OfDirectory (readEnd file place) := by
  unfold readEnd
  refine .ite (.ok _ _) (.ite (.error (.inl rfl)) (.ite (.error (.inl rfl)) ?_))
  exact .ite (.ok _ _) (.ok _ _)

private theorem failsOnly_long (what : Text) (marks : List Nat) (n : Nat) (data : Bytes) :
    FailsOnly Fault.OfDirectory (long what marks n data) :=
  .ite (.ite (.error (.inl rfl)) (.ok _ _)) (.ok _ _)

/-- The long form of the sizes may be cut short, which is a fault of the directory. -/
private theorem failsOnly_lengthen (s : Sizes) (data : Bytes) :
    FailsOnly Fault.OfDirectory (s.lengthen data) := by
  refine (failsOnly_long _ _ _ _).bind fun size => ?_
  refine (failsOnly_long _ _ _ _).bind fun compressedSize => ?_
  exact (failsOnly_long _ _ _ _).bind fun offset => .ok _ _

private theorem failsOnly_withExtra (s : Sizes) (extra : Bytes) :
    FailsOnly Fault.OfDirectory (s.withExtra extra) := by
  fun_induction Sizes.withExtra s extra with
  | case1 => exact .ok _ _
  | case2 => exact .error (.inl rfl)
  | case3 s extra _ tag length _ rest _ ih => exact (failsOnly_lengthen _ _).bind ih
  | case4 s extra _ tag length _ rest _ ih => exact (FailsOnly.ok _ _).bind ih

/-- A name that says it is UTF-8 may be none, and names have no other faults. -/
private theorem failsOnly_nameText (flags : Nat) (name : Bytes) :
    FailsOnly (∃ why, · = Fault.badName why) (nameText flags name) := by
  refine .ite ?_ (.ok _ _)
  cases Utf8.decode name with
  | error why => exact .error ⟨why, rfl⟩
  | ok t => exact .ok _ _

/-- The record of a member has faults of the directory alone: the name of the member, the version
that it needs, and data that are cut short among them. -/
private theorem failsOnly_readMemberRecord (base : Int) (bs : Bytes) :
    FailsOnly Fault.OfDirectory (readMember base bs) := by
  refine .ite (.error (.inl rfl)) (.ite (.error (.inl rfl)) ?_)
  refine ((failsOnly_nameText _ _).mono ?_).bind fun name => ?_
  · rintro _ ⟨why, rfl⟩
    exact .inr (.badName why)
  refine .check (.inr (.version _)) ?_
  exact (failsOnly_withExtra _ _).bind fun sizes => .ok _ _

private theorem failsOnly_readMembers (base : Int) (bs : Bytes) (found : Array Member) :
    FailsOnly Fault.OfDirectory (readMembers base bs found) := by
  fun_induction readMembers base bs found with
  | case1 => exact .ok _ _
  | case2 bs found _ e he => exact .error (failsOnly_readMemberRecord base bs e he)
  | case3 bs found _ m size hm ih => exact ih

/-- What reads a directory fails for its format, or for a name or a version in it. -/
theorem failsOnly_readDirectory (file : Bytes) :
    FailsOnly Fault.OfDirectory (readDirectory file) := by
  unfold readDirectory
  cases findEnd? file with
  | none => exact .error (.inl rfl)
  | some place =>
    refine (failsOnly_readEnd file place).bind fun e => ?_
    refine .check (.inl rfl) ?_
    exact (failsOnly_readMembers _ _ _).bind fun members => .ok _ _

/-- What opens a file has faults of the directory alone. -/
theorem failsOnly_ofFile (tools : Tools) (path : Text) (data : Bytes) :
    FailsOnly Fault.OfDirectory (Archive.ofFile tools path data) :=
  (failsOnly_readDirectory data).map _

/-- A fault of a directory is dealt with, unless it is one of two. -/
theorem Fault.OfDirectory.isOpening_iff {f : Fault} (h : f.OfDirectory) :
    f.kind = .badArchive ∨ f.kind.isSystem ↔ ¬f.EscapesOpening := by
  constructor
  · rintro (hf | hf) (_ | _)
    all_goals cases hf
  · exact fun hf => .inl (h.resolve_right hf)

/-! ### Members -/

private theorem failsOnly_headerPlace (m : Member) : FailsOnly (· ≠ Fault.closed) (headerPlace m) :=
  .ite (.error (by decide)) (.ite (.error (by decide)) (.ok _ _))

private theorem failsOnly_checkHeader (file : Bytes) (m : Member) :
    FailsOnly (· ≠ Fault.closed) (checkHeader file m) := by
  refine (failsOnly_headerPlace m).bind fun place => ?_
  refine .check (by decide) (.check (by decide) (.check (by decide) (.check (by decide) ?_)))
  refine ((failsOnly_nameText _ _).mono ?_).bind fun name => .check nofun (.ok _ _)
  rintro _ ⟨why, rfl⟩
  exact nofun

private theorem failsOnly_formOf (tools : Tools) (method : Nat) (data : Bytes) :
    FailsOnly (· ≠ Fault.closed) (formOf tools method data) := by
  refine .ite (.ok _ _) (.ite (.ok _ _) (.ite ?_ (.ite ?_ (.error nofun))))
  · cases tools.bzip2 with
    | some u => exact .ok _ _
    | none => exact .error nofun
  · cases tools.lzma with
    | some u => exact .ok _ _
    | none => exact .error nofun

/-- Opening a member checks its header, its protection and its method, but not the archive. -/
private theorem failsOnly_openMember (tools : Tools) (file : Bytes) (m : Member) :
    FailsOnly (· ≠ Fault.closed) (openMember tools file m) := by
  refine (failsOnly_checkHeader file m).bind fun place => .check nofun ?_
  refine .ite ?_ ((failsOnly_formOf _ _ _).bind fun form => .ok _ _)
  cases m.shown? with
  | none => exact .throw_bind (by decide) _
  | some shown => exact .throw_bind nofun _

namespace Reader

private theorem failsOnly_pull (r : Reader) (n : Nat) : FailsOnly (· ≠ Fault.closed) (r.pull n) :=
  .ite (.ok _ _) (.ite (.error (by decide)) (.ok _ _))

private theorem failsOnly_stored (r : Reader) (n : Nat) :
    FailsOnly (· ≠ Fault.closed) (r.stored n) := by
  unfold stored
  cases h : r.pull n with
  | error e => exact .error (r.failsOnly_pull n e h)
  | ok p => exact .ok _ _

private theorem failsOnly_gather (r : Reader) (n : Nat) :
    FailsOnly (· ≠ Fault.closed) (r.gather n) :=
  .ite ((r.failsOnly_pull _).map _) (.ok _ _)

private theorem failsOnly_compressed (r : Reader) (flow : Deflate.Flow) (n : Nat) :
    FailsOnly (· ≠ Fault.closed) (r.compressed flow n) := by
  unfold compressed
  cases h : r.gather n with
  | error e => exact .error (r.failsOnly_gather n e h)
  | ok s =>
    cases hrun : flow.run s.pulled (max n leastRead) with
    | error why =>
      simp only [hrun]
      exact .error nofun
    | ok p =>
      simp only [hrun]
      exact .ok _ _

private theorem failsOnly_unpacked (r : Reader) (u : Unpacker) (fed : List Bytes) (n : Nat) :
    FailsOnly (· ≠ Fault.closed) (r.unpacked u fed n) := by
  unfold unpacked
  cases h : r.pull n with
  | error e => exact .error (r.failsOnly_pull n e h)
  | ok p =>
    cases hfeed : u.feed fed p.1 with
    | error why =>
      simp only [hfeed]
      exact .error nofun
    | ok answer =>
      simp only [hfeed]
      exact .ok _ _

/-- A step of reading does not ask whether the archive is closed, in whatever way the data are
written. -/
private theorem failsOnly_step (r : Reader) (n : Nat) :
    FailsOnly (· ≠ Fault.closed) (r.step n) := by
  have hraw : FailsOnly (· ≠ Fault.closed) (r.raw n) := by
    unfold raw
    cases r.form with
    | stored => exact r.failsOnly_stored n
    | deflated flow => exact r.failsOnly_compressed flow n
    | packed u fed => exact r.failsOnly_unpacked u fed n
  unfold step
  refine .ite (.ok _ _) ?_
  cases h : r.raw n with
  | error e => exact .error (hraw e h)
  | ok p => exact .ite (.error nofun) (.ok _ _)

/-- Nor does reading on, by induction on the fuel. -/
private theorem failsOnly_drain (fuel : Nat) (r : Reader) (found : List Bytes) :
    FailsOnly (· ≠ Fault.closed) (drain fuel r found) := by
  induction fuel generalizing r found with
  | zero => exact .ok _ _
  | succ fuel ih =>
    rw [drain]
    refine .ite (.ok _ _) ?_
    cases h : r.step mostRead with
    | error e => exact .error (r.failsOnly_step _ e h)
    | ok p => exact ih p.2 (p.1 :: found)

private theorem failsOnly_readAll (r : Reader) : FailsOnly (· ≠ Fault.closed) r.readAll := by
  unfold readAll
  cases h : drain r.stepsLeft { r with pending := [] } [r.pending] with
  | error e => exact .error (failsOnly_drain _ _ _ e h)
  | ok p => exact .ok _ _

end Reader

/-- An archive is open once it has been read. -/
theorem Archive.closed_of_ofFile {tools : Tools} {path : Text} {data : Bytes} {a : Archive}
    (h : Archive.ofFile tools path data = .ok a) : a.closed = false := by
  rw [ofFile] at h
  cases hdirectory : readDirectory data with
  | error f =>
    rw [hdirectory] at h
    cases h
  | ok ms =>
    rw [hdirectory] at h
    cases h
    rfl

/-- What reads a member of an open archive does not find it closed. -/
theorem failsOnly_readMember {a : Archive} (h : a.closed = false) (m : Member) :
    FailsOnly (· ≠ Fault.closed) (a.readMember m) := by
  have hopen : a.openMember m = openMember a.tools a.file m := by
    rw [Archive.openMember, h]
    rfl
  unfold Archive.readMember
  rw [hopen]
  cases hm : openMember a.tools a.file m with
  | error e => exact .error (failsOnly_openMember a.tools a.file m e hm)
  | ok r => exact r.failsOnly_readAll.map _

end Zip

end EntryRef
