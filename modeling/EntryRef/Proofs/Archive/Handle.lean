import EntryRef.Archive.Handle

/-!
# What comes of operations on archives

The value of an operation does not depend on its events. `withArchive` fails where the reference
has no path or the opener fails, and otherwise gives what is done with the handle
(`value_withArchive`); `withArchive_induction` proves something about all ways at once.
-/

namespace EntryRef

variable {α β : Type}

namespace Traced

@[simp]
theorem value_pure (a : α) : (pure a : Traced α).value = a := rfl

@[simp]
theorem value_bind (x : Traced α) (f : α → Traced β) : (x >>= f).value = (f x.value).value := rfl

end Traced

variable {table : FlagTable} {opener : Opener table} {u : Reference table}
  {fail : Failure table → β} {body : Text → Handle table → Traced β} {path : Text}

/-- Without a path nothing is opened, and the failure is that of the authority. -/
theorem value_withArchive_of_no_path {why : Authority.Fault} (hpath : u.archivePath = .error why) :
    (withArchive opener u fail body).value = fail (.authority why) := by
  rw [withArchive, hpath]

/-- An archive that does not open is told with the reference. -/
theorem value_withArchive_of_no_archive {e : Failure table} (hpath : u.archivePath = .ok path)
    (hopen : opener path = .error e) :
    (withArchive opener u fail body).value = fail (openFailure u path e) := by
  simp only [withArchive, hpath, hopen]

/-- What is done with an archive that opens is all that is told. -/
theorem value_withArchive {h : Handle table} (hpath : u.archivePath = .ok path)
    (hopen : opener path = .ok h) :
    (withArchive opener u fail body).value = (body path h).value := by
  simp only [withArchive, hpath, hopen]
  rfl

/-- What holds where the reference has no path, where the opener fails, and of whatever is done with
a handle that the opener gives, holds of what comes of an operation. -/
theorem withArchive_cases {motive : β → Prop}
    (hpath : ∀ why, u.archivePath = .error why → motive (fail (.authority why)))
    (hopen : ∀ path e, u.archivePath = .ok path → opener path = .error e →
      motive (fail (openFailure u path e)))
    (hbody : ∀ path h, u.archivePath = .ok path → opener path = .ok h →
      motive (body path h).value) : motive (withArchive opener u fail body).value := by
  cases hu : u.archivePath with
  | error why =>
    rw [value_withArchive_of_no_path hu]
    exact hpath why hu
  | ok path =>
    cases hhandle : opener path with
    | error e =>
      rw [value_withArchive_of_no_archive hu hhandle]
      exact hopen path e hu hhandle
    | ok h =>
      rw [value_withArchive hu hhandle]
      exact hbody path h hu hhandle

/-- What holds of all failures, and of whatever is done with a handle that the opener gives, holds
of what comes of an operation. -/
theorem withArchive_induction {motive : β → Prop} (hfail : ∀ e, motive (fail e))
    (hbody : ∀ path h, u.archivePath = .ok path → opener path = .ok h →
      motive (body path h).value) : motive (withArchive opener u fail body).value :=
  withArchive_cases (fun why _ => hfail (.authority why))
    (fun path e _ _ => hfail (openFailure u path e)) hbody

/-- An operation that tells its failures succeeds if the archive is open and what is done with it
succeeds. -/
theorem value_withArchive_eq_ok_iff {body : Text → Handle table → Traced (Except (Failure table) β)}
    {x : β} : (withArchive opener u .error body).value = .ok x ↔
      ∃ path h, u.archivePath = .ok path ∧ opener path = .ok h ∧ (body path h).value = .ok x := by
  constructor
  · refine withArchive_induction (motive := fun v => v = Except.ok x → ∃ path h,
      u.archivePath = .ok path ∧ opener path = .ok h ∧ (body path h).value = .ok x) ?_ ?_
    · intro e he
      cases he
    · intro path h hpath hopen hbody
      exact ⟨path, h, hpath, hopen, hbody⟩
  · rintro ⟨path, h, hpath, hopen, hbody⟩
    rw [value_withArchive hpath hopen, hbody]

end EntryRef
