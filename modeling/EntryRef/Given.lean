import EntryRef.Text.Basic

/-!
# Given values

Callers hand in values of several kinds where a text, a truth value or a number is wanted. `Given`
is such a value, and here is how each kind is taken: `toText` for a text, `isTrue` for a truth
value, `toNumber` for a whole number.
-/

namespace EntryRef

open Text

/-- A value of any of the kinds that a caller may hand in. -/
inductive Given
  | nothing
  | truth (b : Bool)
  | number (n : Int)
  /-- The number `mantissa * 2 ^ exponent`, with its text. -/
  | fraction (mantissa exponent : Int) (shown : Text)
  /-- A number beyond all others, on either side. -/
  | infinite (negative : Bool)
  /-- The result of a calculation that has none. -/
  | undefined
  | words (t : Text)
  /-- A list of so many values, with its text. -/
  | list (size : Nat) (shown : Text)
  /-- A table of so many values under keys, with its text. -/
  | table (size : Nat) (shown : Text)
deriving DecidableEq

namespace Given

/-- Does the value count as true? Nothing, zero and what is empty do not. -/
def isTrue : Given → Bool
  | .nothing => false
  | .truth b => b
  | .number n => n != 0
  | .fraction mantissa _ _ => mantissa != 0
  | .infinite _ | .undefined => true
  | .words t => !t.isEmpty
  | .list size _ => size != 0
  | .table size _ => size != 0

/-- The text of a value. -/
def toText : Given → Text
  | .nothing => "None"
  | .truth b => if b then "True".toList else "False".toList
  | .number n => ofInt n
  | .words t => t
  | .fraction _ _ shown | .list _ shown | .table _ shown => shown
  | .infinite negative => if negative then "-inf".toList else "inf".toList
  | .undefined => "nan"

/-- Is the text of the value the word `true`, in either case? -/
def saysTrue (v : Given) : Bool := v.toText.map Char.toLower == "true".toList

/-- The name of the value's kind in a message. -/
def kindName : Given → Text
  | .nothing => "NoneType"
  | .truth _ => "bool"
  | .number _ => "int"
  | .fraction .. | .infinite _ | .undefined => "float"
  | .words _ => "str"
  | .list .. => "list"
  | .table .. => "dict"

/-- Why a value stands for no whole number. -/
inductive NotWhole
  /-- It is of a kind that stands for no number. -/
  | kind (name : Text)
  /-- It is infinite. -/
  | infinite
  /-- It is undefined. -/
  | undefined
deriving DecidableEq

/-- The words for the reason. -/
def NotWhole.message : NotWhole → Text
  | .kind name =>
    "int() argument must be a string, a bytes-like object or a real number, not '" ++ name ++ "'"
  | .infinite => "cannot convert float infinity to integer"
  | .undefined => "cannot convert float NaN to integer"

/-- A fraction without its places. -/
def truncated (mantissa exponent : Int) : Int :=
  if exponent < 0 then mantissa.tdiv (Nat.pow 2 exponent.natAbs)
  else mantissa * Nat.pow 2 exponent.natAbs

/-- The whole number that a value other than a text stands for; a fraction loses its places. -/
def toNumber : Given → Except NotWhole Int
  | .truth b => .ok (if b then 1 else 0)
  | .number n => .ok n
  | .fraction mantissa exponent _ => .ok (truncated mantissa exponent)
  | .infinite _ => .error .infinite
  | .undefined => .error .undefined
  | v => .error (.kind v.kindName)

end Given

end EntryRef
