import EntryRef.Text.Printable

/-!
# Quoted texts

How a text or a byte string is shown inside a message: between quotation marks, with a backslash
before what would be misread. Single marks are used unless the text holds a single one and no double
one. Unprintable characters become `\xNN`, `\uNNNN` or `\UNNNNNNNN`, the shortest that holds the
code point; bytes outside ASCII's printable part become `\xNN`.
-/

namespace EntryRef.Text

/-- The mark that a quotation stands between. -/
def quoteMark (hasSingle hasDouble : Bool) : Char :=
  if hasSingle && !hasDouble then '"' else '\''

/-- The escape of an unprintable character: the shortest of the three hexadecimal forms. -/
def hexEscape (n : Nat) : Text :=
  if n ≤ 0xff then '\\' :: 'x' :: hex 2 n
  else if n ≤ 0xffff then '\\' :: 'u' :: hex 4 n
  else '\\' :: 'U' :: hex 8 n

/-- One character of a quotation that stands between `mark`s; `plain` says whether it is shown as
itself. -/
def quoteChar (mark : Char) (plain : Bool) (c : Char) : Text :=
  if c = mark ∨ c = '\\' then ['\\', c]
  else if c = '\t' then ['\\', 't']
  else if c = '\n' then ['\\', 'n']
  else if c = '\r' then ['\\', 'r']
  else if plain then [c]
  else hexEscape c.toNat

/-- A text as a quotation. -/
def quoted (s : Text) : Text :=
  let mark := quoteMark (s.contains '\'') (s.contains '"')
  mark :: s.flatMap (fun c => quoteChar mark (isPrintable c) c) ++ [mark]

/-- A byte string as a quotation, with `b` in front. -/
def quotedBytes (bs : Bytes) : Text :=
  let s := bs.map fun b => Char.ofNat b.toNat
  let mark := quoteMark (s.contains '\'') (s.contains '"')
  'b' :: mark :: s.flatMap (fun c => quoteChar mark (0x20 ≤ c.toNat && c.toNat < 0x7f) c) ++ [mark]

/-- A list of texts as a list of quotations in brackets. -/
def quotedList (ts : List Text) : Text := '[' :: joined ", " (ts.map quoted) ++ [']']

end EntryRef.Text
