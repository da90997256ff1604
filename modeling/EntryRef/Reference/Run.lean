import EntryRef.Reference.Change
import EntryRef.Reference.Normal

/-!
# Runs of changes

A `Reference.Change` is a step from a reference to another one: one of the changes, or a way through
which a reference comes back, such as its text. A step may fail, and a run goes on with the
reference that it has then.
-/

namespace EntryRef.Reference

open Text

variable {table : FlagTable}

/-- A step from a reference to another one. -/
inductive Change
  /-- Another archive, at a path that is seen from the directory `cwd`. -/
  | archive (cwd p : Path.Raw)
  /-- Another extension of the file. -/
  | extension (ext : Text)
  /-- A flag is set to a given value, or unset. -/
  | flag (name : Text) (v : Given)
  /-- The flag for the source is set to a given value, or unset. -/
  | source (v : Given)
  /-- All flags are unset. -/
  | noFlags
  /-- Any text takes the place of the locator. -/
  | base (base : Text)
  /-- The text of the reference is read. -/
  | reread
  /-- The reference is normalized. -/
  | normalized (cwd : Path.Raw)
  /-- The reference is made again of its parts. -/
  | remade

/-- Carries a step out. -/
def change (u : Reference table) : Change → Except Refusal (Reference table)
  | .archive cwd p => (u.withArchiveAt cwd p).mapError .malformed
  | .extension ext => (u.withExtension ext).mapError .malformed
  | .flag name v => (u.withFlag name v).mapError .flag
  | .source v => (u.withSource v).mapError .flag
  | .noFlags => .ok u.withoutFlags
  | .base base => u.replace ⟨some (some base), none, []⟩
  | .reread =>
    match u.text with
    | .ok s => (parse table s).mapError .malformed
    | .error why => .error (.flag why)
  | .normalized cwd => ((normalize cwd (.reference u)).map (·.getD u)).mapError .malformed
  | .remade => (make table none (some u.base) (some u.flags)).mapError .malformed

/-- Takes a step, unless it fails. -/
def step (u : Reference table) (c : Change) : Reference table :=
  match u.change c with
  | .ok v => v
  | .error _ => u

/-- Takes steps one after another. -/
def run (u : Reference table) (cs : List Change) : Reference table := cs.foldl step u

end EntryRef.Reference
