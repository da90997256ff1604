import EntryRef.Text.Blank
import EntryRef.Text.Quoted

/-!
# Whole numbers in decimal

`readInt` accepts what people write for a whole number: white space around it, a sign, decimal
digits of any script, and single underscores between digits. A number of more than `maxDigits`
digits is neither read nor written, so that both stay fast; `ofInt` gives the digits of any number,
and `unwritable?` tells whether they are too many.
-/

namespace EntryRef.Text

/-- The zeros of the scripts beyond ASCII that have decimal digits; the nine other digits follow
each zero. -/
def scriptZeros : List Nat :=
  [0x660, 0x6f0, 0x7c0, 0x966, 0x9e6, 0xa66, 0xae6, 0xb66, 0xbe6, 0xc66, 0xce6, 0xd66, 0xde6, 0xe50,
    0xed0, 0xf20, 0x1040, 0x1090, 0x17e0, 0x1810, 0x1946, 0x19d0, 0x1a80, 0x1a90, 0x1b50, 0x1bb0,
    0x1c40, 0x1c50, 0xa620, 0xa8d0, 0xa900, 0xa9d0, 0xa9f0, 0xaa50, 0xabf0, 0xff10, 0x104a0,
    0x10d30, 0x11066, 0x110f0, 0x11136, 0x111d0, 0x112f0, 0x11450, 0x114d0, 0x11650, 0x116c0,
    0x11730, 0x118e0, 0x11950, 0x11c50, 0x11d50, 0x11da0, 0x16a60, 0x16ac0, 0x16b50, 0x1d7ce,
    0x1d7d8, 0x1d7e2, 0x1d7ec, 0x1d7f6, 0x1e140, 0x1e2f0, 0x1e950, 0x1fbf0]

/-- The value of a decimal digit of any script. -/
def digitValue? (c : Char) : Option Nat :=
  if c.isDigit then some (c.toNat - '0'.toNat)
  else (scriptZeros.find? fun z => z ≤ c.toNat && c.toNat < z + 10).map (c.toNat - ·)

/-- White space that may stand around a number: all but the information separators. -/
def isNumberSpace (c : Char) : Bool := isBlank c && !(0x1c ≤ c.toNat && c.toNat ≤ 0x1f)

/-- The most digits that a number may be read or written with. -/
def maxDigits : Nat := 4300

/-- Why a text is not read as a whole number, or a whole number is not written. -/
inductive NumberFault
  /-- The text is not of the form of a number. -/
  | notANumber (s : Text)
  /-- The number has that many digits, which is more than `maxDigits`. -/
  | tooLong (digits : Nat)
  /-- The number to be written has more than `maxDigits` digits. -/
  | unwritable
deriving DecidableEq

/-- The most characters of a quotation that are shown in a message. -/
def maxShown : Nat := 200

/-- The words for a fault. A long quotation is cut off, wherever that is. -/
def NumberFault.message : NumberFault → Text
  | .notANumber s => "invalid literal for int() with base 10: " ++ (quoted s).take maxShown
  | .tooLong n => "Exceeds the limit (" ++ ofNat maxDigits ++
      " digits) for integer string conversion: value has " ++ ofNat n ++
      " digits; use sys.set_int_max_str_digits() to increase the limit"
  | .unwritable => "Exceeds the limit (" ++ ofNat maxDigits ++
      " digits) for integer string conversion; " ++
      "use sys.set_int_max_str_digits() to increase the limit"

/-- Why a number is not written, if it is not. -/
def unwritable? (n : Int) : Option NumberFault :=
  if n.natAbs < Nat.pow 10 maxDigits then none else some .unwritable

/-- The digits of a number without the underscores between them. `gap` says whether an underscore
would be at a permitted place, that is, right after a digit. -/
def digitsOf? : (gap : Bool) → Text → Option (List Nat)
  | gap, [] => if gap then some [] else none
  | gap, c :: r =>
    if c = '_' then if gap then digitsOf? false r else none
    else do
      let d ← digitValue? c
      let ds ← digitsOf? true r
      return d :: ds

/-- The sign and the rest of a text that may start with a sign. -/
def signed : Text → Bool × Text
  | '-' :: r => (true, r)
  | '+' :: r => (false, r)
  | s => (false, s)

/-- Reads a whole number. A number that is too long is reported as such, whatever follows it. -/
def readInt (s : Text) : Except NumberFault Int :=
  let (negative, body) := signed (strip isNumberSpace s)
  let run := body.takeWhile fun c => c == '_' || (digitValue? c).isSome
  match digitsOf? false run with
  | none => .error (.notANumber s)
  | some ds =>
    if ds.length > maxDigits then .error (.tooLong ds.length)
    else if run.length < body.length then .error (.notANumber s)
    else
      let n : Nat := ds.foldl (fun n d => 10 * n + d) 0
      .ok (if negative then -n else n)

end EntryRef.Text
