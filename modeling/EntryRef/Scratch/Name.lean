import EntryRef.Text.Basic

/-!
# Names of scratch directories

The name that a scratch directory carries behind its random part: the one that is asked for, or else
a default, which may be changed.
-/

namespace EntryRef.Scratch

open Text

/-- The default name to start with. -/
def firstName : Text := "klsurl"

/-- There is neither a name nor a default. -/
structure NoName where
deriving DecidableEq

/-- The words for it. -/
def NoName.message (_ : NoName) : Text :=
  "Must either set the default temp name or create directories with a name"

/-- The name to use: the one asked for, unless it is empty, or the default, unless that is empty. -/
def nameFor (default asked : Option Text) : Except NoName Text :=
  match asked, default with
  | some (c :: r), _ => .ok (c :: r)
  | _, some (c :: r) => .ok (c :: r)
  | _, _ => .error {}

end EntryRef.Scratch
