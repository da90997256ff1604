import EntryRef.Given
import EntryRef.Text.Decimal

/-!
# Flags

A flag is a named setting of a reference, such as whether its source is wanted. A `FlagTable` lists
the flags that are known, in the order in which they are written. `FlagTable.standard` knows
`source`; `FlagTable.extended` knows `depth` too.
-/

namespace EntryRef

open Text

/-- The value of a flag. -/
inductive FlagValue
  | truth (b : Bool)
  | number (n : Int)
  | words (t : Text)
deriving DecidableEq

namespace FlagValue

/-- The flag value as a given value. -/
def toGiven : FlagValue → Given
  | .truth b => .truth b
  | .number n => .number n
  | .words t => .words t

/-- Do two values stand for the same? A truth value stands for the same as 0 or 1. -/
def same (v w : FlagValue) : Bool :=
  v == w || match v.toGiven.toNumber, w.toGiven.toNumber with
    | .ok m, .ok n => m == n
    | _, _ => false

end FlagValue

/-- Why a flag cannot be read, set or written. -/
inductive FlagFault
  /-- No flag has this name. -/
  | unknown (name : Text)
  /-- The text is not a number, or the number has no text. -/
  | number (why : NumberFault)
  /-- The value is not a number. -/
  | notWhole (why : Given.NotWhole)
deriving DecidableEq

/-- The words for a fault. -/
def FlagFault.message : FlagFault → Text
  | .unknown name => "Unknown query parameter '" ++ name ++ "'"
  | .number why => why.message
  | .notWhole why => why.message

/-- A flag that references may have. -/
structure Flag where
  /-- The name that the flag is written with. -/
  name : Text
  /-- The value that a text stands for. -/
  read : Text → Except FlagFault FlagValue
  /-- The value that a given value other than a text stands for. -/
  take : Given → Except FlagFault FlagValue
  /-- The text that a value is written as, with all of its digits if it is a number. -/
  write : FlagValue → Text
  /-- Why a value is not written, if it is not. -/
  unwritable? : FlagValue → Option FlagFault
  /-- The value of the flag where it is not set. -/
  default : FlagValue

/-- The flags that are known, in the order in which they are written. -/
abbrev FlagTable := List Flag

namespace Flag

/-- The text of a truth value. -/
def truthText (b : Bool) : Text := if b then "true".toList else "false".toList

/-- Is the source of the entry wanted? Any text but `true` says no. -/
def source : Flag where
  name := "source"
  read t := .ok (.truth (Given.words t).saysTrue)
  take v := .ok (.truth v.isTrue)
  write v := truthText v.toGiven.isTrue
  unwritable? _ := none
  default := .truth false

/-- A depth, which is a whole number. -/
def depth : Flag where
  name := "depth"
  read t :=
    match readInt t with
    | .ok n => .ok (.number n)
    | .error why => .error (.number why)
  take v :=
    match v.toNumber with
    | .ok n => .ok (.number n)
    | .error why => .error (.notWhole why)
  write v := v.toGiven.toText
  unwritable?
    | .number n => (Text.unwritable? n).map .number
    | .truth _ | .words _ => none
  default := .number 0

end Flag

namespace FlagTable

/-- The flags of every reference. -/
def standard : FlagTable := [Flag.source]

/-- The flags of references that may also tell a depth. -/
def extended : FlagTable := [Flag.source, Flag.depth]

end FlagTable

end EntryRef
