import EntryRef.Text.Basic

/-!
# Lines

`lines` cuts a text at the ends of its lines, as a reader of text sees them: eleven characters and a
carriage return with a line feed end a line. `rows` cuts at every carriage return and every line
feed, as a terminal does. A text may have more lines than rows or fewer: a form feed ends a line
and no row, and behind the last end of a line there is a row, though it be empty, and no line.
-/

namespace EntryRef.Text

/-- Does `c` end a line? -/
def isLineEnd (c : Char) : Bool :=
  let n := c.toNat
  (0x0a ≤ n && n ≤ 0x0d) || (0x1c ≤ n && n ≤ 0x1e) || n == 0x85 || n == 0x2028 || n == 0x2029

/-- The lines of a text without what ends them. A text that ends with the end of a line has no
further line behind it, and the empty text has no line. -/
def lines : Text → List Text
  | [] => []
  | '\r' :: '\n' :: r => [] :: lines r
  | c :: r =>
    if isLineEnd c then [] :: lines r
    else match lines r with
      | [] => [[c]]
      | l :: ls => (c :: l) :: ls

/-- Is `c` a carriage return or a line feed? -/
def isReturn (c : Char) : Bool := c == '\r' || c == '\n'

/-- The texts between carriage returns and line feeds. -/
def rows (s : Text) : List Text := (pieces '\n' s).flatMap (pieces '\r')

end EntryRef.Text
