import EntryRef.Text.Blank
import EntryRef.Text.Quoted

/-!
# Identifiers

An identifier is a text that may start with a scheme and a colon. `Identifier.splitScheme` takes it
apart, and `Identifier.fault?` finds the first reason why it cannot address anything: an empty text,
a character that never stands unescaped, a broken escape, a missing scheme name, or nothing behind
the scheme.
-/

namespace EntryRef.Identifier

open Text

/-! ### Schemes -/

/-- May `c` stand in a scheme behind its first character? -/
def isSchemeChar (c : Char) : Bool := c.isAlphanum || c == '+' || c == '.' || c == '-'

/-- A scheme is a letter, then letters, digits, `+`, `.` and `-`. A single line break behind it is
let pass. -/
def isScheme : Text → Bool
  | [] => false
  | c :: r => c.isAlpha && (r.dropWhile isSchemeChar == [] || r.dropWhile isSchemeChar == ['\n'])

/-- The scheme of an identifier and the part behind its colon; without a scheme, all of it. -/
def splitScheme (s : Text) : Option Text × Text :=
  match after? ':' s with
  | some rest => if isScheme (before ':' s) then (some (before ':' s), rest) else (none, s)
  | none => (none, s)

/-! ### Faults -/

/-- Must `c` be escaped in an identifier? -/
def isIllegal (c : Char) : Bool :=
  isBlank c || c.toNat < 0x20 || c.toNat == 0x7f ||
    c == '"' || c == '<' || c == '>' || c == '\\' || c == '^' || c == '`' ||
    c == '{' || c == '|' || c == '}'

/-- Does a text start with two hexadecimal digits? -/
def startsWithEscape : Text → Bool
  | a :: b :: _ => isHex a && isHex b
  | _ => false

/-- The index of the first percent sign that two hexadecimal digits do not follow; `i` is the index
of the text's first character. -/
def badEscape? : Text → Nat → Option Nat
  | [], _ => none
  | c :: r, i => if c == '%' && !startsWithEscape r then some i else badEscape? r (i + 1)

/-- What is wrong with an identifier. -/
inductive Fault
  /-- There is no text. -/
  | empty
  /-- A character is not allowed. -/
  | illegal (c : Char) (index : Nat)
  /-- A percent sign does not start an escape. -/
  | badEscape (index : Nat)
  /-- There is a colon but nothing before it. -/
  | noSchemeName
  /-- Nothing but a fragment follows the scheme, which has the given length with its colon. -/
  | noSpecificPart (index : Nat)
deriving DecidableEq

/-- The words for a fault. -/
def Fault.message : Fault → Text
  | .empty => "identifier is empty"
  | .illegal c i => "illegal character " ++ quoted [c] ++ " at index " ++ ofNat i
  | .badEscape i => "malformed escape at index " ++ ofNat i
  | .noSchemeName => "expected scheme name at index 0"
  | .noSpecificPart i => "expected scheme-specific part at index " ++ ofNat i

/-- The first illegal character of a text, with its index. -/
def illegal? (s : Text) : Option (Char × Nat) :=
  match s.dropWhile fun c => !isIllegal c with
  | [] => none
  | c :: _ => some (c, (s.takeWhile fun c => !isIllegal c).length)

/-- What is wrong with the scheme or with what follows it, in a text that has a colon before
`rest`. -/
def schemeFault? (scheme rest : Text) : Option Fault :=
  if scheme.isEmpty then some .noSchemeName
  else if isScheme scheme && (before '#' rest).isEmpty then
    some (.noSpecificPart (scheme.length + 1))
  else none

/-- What is wrong with an identifier, if anything; of several faults the first in the order of
`Fault`'s constructors. -/
def fault? (s : Text) : Option Fault :=
  if s.isEmpty then some .empty
  else match illegal? s with
    | some (c, i) => some (.illegal c i)
    | none => match badEscape? s 0 with
      | some i => some (.badEscape i)
      | none => (after? ':' s).bind (schemeFault? (before ':' s))

end EntryRef.Identifier
