import EntryRef.Text.Decimal
import EntryRef.Trouble

/-!
# Templates

A template is a text with fields in braces, which stand for values. A field is a name, behind which
characters of the value may be picked by their index in brackets; then there may be `!` with the
form that the value is shown in, and `:` with a layout. Two equal braces stand for one.

`Template.fill` puts the values in from left to right and tells the first trouble. The layout of a
field may have fields itself, and those may not.

Templates stand here because of the package `fs`: the message of an error that it raises is filled
in as a template when it is shown, with what the error carries for its fields. What is proved about
such messages rests on the forms of templates and on the order in which their troubles come up, as
they are documented for the formatting of texts. The values are texts or nothing at all (`Value`),
so that layouts for numbers are refused as they are for texts.
-/

namespace EntryRef.Template

open Text

/-- What a field stands for. -/
inductive Value
  | text (t : Text)
  | nothing
deriving DecidableEq

/-- The fields by their names. -/
abbrev Fields := List (Text × Value)

/-- The trouble with a template of the wrong form. -/
def malformed (words : Text) : Trouble := ⟨.wrongValue, words⟩

/-! ### Numbers -/

/-- The largest number that a template may hold. -/
def maxNumber : Nat := 0x7fffffffffffffff

/-- Reads digits behind the digits of the number `n`, and tells the number and what follows it. -/
def readDigits (n : Nat) : Text → Except Trouble (Nat × Text)
  | [] => .ok (n, [])
  | c :: r =>
    match digitValue? c with
    | none => .ok (n, c :: r)
    | some d =>
      if maxNumber < 10 * n + d then
        .error (malformed "Too many decimal digits in format string")
      else readDigits (10 * n + d) r

/-- The number that a text writes, if it has digits alone. -/
def index? (s : Text) : Except Trouble (Option Nat) :=
  (readDigits 0 s).map fun (n, r) => if s.isEmpty || !r.isEmpty then none else some n

/-! ### Layouts -/

/-- Takes a character off a text if it is as wanted. -/
def optional (wanted : Char → Bool) : Text → Option Char × Text
  | [] => (none, [])
  | c :: r => if wanted c then (some c, r) else (none, c :: r)

/-- Does `c` say where a text stands in its place? -/
def isAlignment (c : Char) : Bool := c == '<' || c == '>' || c == '=' || c == '^'

/-- The character that fills a place, and where the text stands in it. -/
def alignment : Text → Option Char × Option Char × Text
  | fill :: c :: r =>
    if isAlignment c then (some fill, some c, r)
    else (none, optional isAlignment (fill :: c :: r))
  | s => (none, optional isAlignment s)

/-- The number of characters that are shown. -/
def precision (s : Text) : Except Trouble (Option Nat × Text) :=
  match s with
  | '.' :: r => do
    let (n, rest) ← readDigits 0 r
    if rest.length = r.length then .error (malformed "Format specifier missing precision")
    else .ok (some n, rest)
  | s => .ok (none, s)

/-- A character in a message, or its number where it cannot be shown. -/
def shownChar (limit : Nat) (c : Char) : Text :=
  if 0x20 < c.toNat ∧ c.toNat < limit then [c] else '\\' :: 'x' :: Nat.toDigits 16 c.toNat

/-- What is wrong with a mark that groups digits, before a type of values. -/
def groupFault? (mark type : Char) : Option Text :=
  let allowed : Text := if mark = '_' then "defgEG%FboxX" else "defgEG%F"
  if allowed.contains type then none
  else some ("Cannot specify '" ++ mark :: "' with '" ++ shownChar 0x80 type ++ "'.")

/-- Lays a text out. Much of what a layout may ask for is for numbers and refused for a text. -/
def layOut (layout t : Text) : Except Trouble Text := do
  let (fill, align, r) := alignment layout
  let (sign, r) := optional (fun c => c == ' ' || c == '+' || c == '-') r
  let (unsigned, r) := optional (· == 'z') r
  let (alternate, r) := optional (· == '#') r
  let (zero, r) := if fill.isNone then optional (· == '0') r else (none, r)
  let (width, r) ← readDigits 0 r
  let (comma, r) := optional (· == ',') r
  let (line, r) := optional (· == '_') r
  if line.isSome && (comma.isSome || r.head? == some ',') then
    throw (malformed "Cannot specify both ',' and '_'.")
  let (most, r) ← precision r
  if r.length > 1 then
    throw (malformed ("Invalid format specifier '" ++ layout ++ "' for object of type 'str'"))
  let type := r.headD 's'
  if let some words := (comma.or line).bind (groupFault? · type) then throw (malformed words)
  -- what has been read is a layout, but not always one for texts
  if type ≠ 's' then
    throw (malformed ("Unknown format code '" ++ shownChar 0x80 type ++
      "' for object of type 'str'"))
  if sign = some ' ' then throw (malformed "Space not allowed in string format specifier")
  if sign.isSome then throw (malformed "Sign not allowed in string format specifier")
  if unsigned.isSome then
    throw (malformed "Negative zero coercion (z) not allowed in string format specifier")
  if alternate.isSome then
    throw (malformed "Alternate form (#) not allowed in string format specifier")
  if align = some '=' then
    throw (malformed "'=' alignment not allowed in string format specifier")
  let t := t.take (most.getD t.length)
  let gap := width - t.length
  let left := if align = some '>' then gap else if align = some '^' then gap / 2 else 0
  let c := fill.getD (zero.getD ' ')
  return List.replicate left c ++ t ++ List.replicate (gap - left) c

/-! ### Values of fields -/

/-- Picks a part of a value. -/
def Value.part (v : Value) (index : Option Nat) : Except Trouble Value :=
  match v, index with
  | .text t, some i =>
    match t[i]? with
    | some c => .ok (.text [c])
    | none => .error ⟨.noSuchIndex, "string index out of range"⟩
  | .text _, none => .error ⟨.wrongKind, "string indices must be integers, not 'str'"⟩
  | .nothing, _ => .error ⟨.wrongKind, "'NoneType' object is not subscriptable"⟩

/-- The trouble with a value that does not have a named part. -/
def Value.noPart (v : Value) (name : Text) : Trouble :=
  let kind : Text := match v with
    | .text _ => "str"
    | .nothing => "NoneType"
  ⟨.noSuchPart, "'" ++ kind ++ "' object has no attribute '" ++ name ++ "'"⟩

/-- The trouble with a part that is not named. -/
def noName : Trouble := malformed "Empty attribute in format string"

/-- Picks parts of a value one after another, at most `fuel` of them. -/
def Value.parts : (fuel : Nat) → Value → Text → Except Trouble Value
  | 0, v, _ | _, v, [] => .ok v
  | _ + 1, v, '.' :: r =>
    let name := r.takeWhile fun c => c != '.' && c != '['
    .error (if name.isEmpty then noName else v.noPart name)
  | fuel + 1, v, '[' :: r => do
    let name := before ']' r
    let i ← index? name
    if name.isEmpty then throw noName
    parts fuel (← v.part i) ((after? ']' r).getD [])
  | _, _, _ => .error (malformed "Only '.' or '[' may follow ']' in format field specifier")

/-- The value of a field. A number, or no name at all, would be the place of a value without a name,
of which there are none. -/
def valueOf (fields : Fields) (name : Text) : Except Trouble Value := do
  let isPlain := fun c => c != '.' && c != '['
  let first := name.takeWhile isPlain
  let i ← index? first
  match if first.isEmpty then some 0 else i, fields.lookup first with
  | some i, _ =>
    throw ⟨.noSuchIndex, "Replacement index " ++ ofNat i ++
      " out of range for positional args tuple"⟩
  | none, none => throw (.noKey first)
  | none, some v => v.parts name.length (name.dropWhile isPlain)

/-- The form that a value is shown in: quoted, quoted in ASCII alone, or plain. -/
def converted (v : Value) : Option Char → Except Trouble Value
  | none => .ok v
  | some 's' => .ok (.text (match v with | .text t => t | .nothing => "None"))
  | some 'r' => .ok (.text (match v with | .text t => quoted t | .nothing => "None"))
  | some 'a' =>
    let plain := fun c : Char => if c.toNat < 0x80 then [c] else hexEscape c.toNat
    .ok (.text (match v with | .text t => (quoted t).flatMap plain | .nothing => "None"))
  | some c => .error (malformed ("Unknown conversion specifier " ++ shownChar 0x7f c))

/-- The text of a value in a layout. -/
def Value.laidOut (v : Value) (layout : Text) : Except Trouble Text :=
  match v, layout with
  | .text t, [] => .ok t
  | .text t, layout => layOut layout t
  | .nothing, [] => .ok "None".toList
  | .nothing, _ => .error ⟨.wrongKind, "unsupported format string passed to NoneType.__format__"⟩

/-! ### Reading fields -/

/-- A field as it is written. -/
structure Field where
  name : Text
  conversion : Option Char
  layout : Text

/-- The name of a field, the character that ends it and what follows. In brackets every character
belongs to the name. -/
def readName : (inBrackets : Bool) → Text → Except Trouble (Text × Char × Text)
  | _, [] => .error (malformed "expected '\x7d' before end of string")
  | true, c :: r => (readName (c != ']') r).map fun (name, rest) => (c :: name, rest)
  | false, c :: r =>
    if c = '\x7b' then .error (malformed "unexpected '\x7b' in field name")
    else if c = '\x7d' ∨ c = ':' ∨ c = '!' then .ok ([], c, r)
    else (readName (c == '[') r).map fun (name, rest) => (c :: name, rest)

/-- The layout of a field and what follows the field; `depth` braces are open in the layout. -/
def readLayout : (depth : Nat) → Text → Except Trouble (Text × Text)
  | _, [] => .error (malformed "unmatched '\x7b' in format spec")
  | depth, c :: r =>
    let more := fun depth => (readLayout depth r).map fun (layout, rest) => (c :: layout, rest)
    if c = '\x7b' then more (depth + 1)
    else if c = '\x7d' then
      match depth with
      | 0 => .ok ([], r)
      | depth + 1 => more depth
    else more depth

/-- Reads a field behind its first brace, and tells what follows it. -/
def readField (s : Text) : Except Trouble (Field × Text) := do
  let (name, stop, r) ← readName false s
  let withLayout := fun conversion r =>
    (readLayout 0 r).map fun (layout, rest) => (⟨name, conversion, layout⟩, rest)
  match stop, r with
  | '\x7d', r => return (⟨name, none, []⟩, r)
  | ':', r => withLayout none r
  | _, [] => throw (malformed "end of string while looking for conversion specifier")
  | _, [c] => withLayout (some c) []
  | _, c :: '\x7d' :: r => return (⟨name, some c, []⟩, r)
  | _, c :: ':' :: r => withLayout (some c) r
  | _, _ => throw (malformed "expected ':' after conversion specifier")

/-! ### Filling in -/

/-- The text of a field; `expand` fills in its layout. -/
def fieldText (fields : Fields) (expand : Text → Except Trouble Text) (f : Field) :
    Except Trouble Text := do
  let v ← converted (← valueOf fields f.name) f.conversion
  if f.layout.contains '\x7b' then v.laidOut (← expand f.layout) else v.laidOut f.layout

/-- Fills a template in, of which at most `fuel` fields and pairs of braces are read. -/
def fillWith (fields : Fields) (expand : Text → Except Trouble Text) :
    (fuel : Nat) → Text → Except Trouble Text
  | 0, s => .ok s
  | fuel + 1, s =>
    let isPlain := fun c => c != '\x7b' && c != '\x7d'
    let start := s.takeWhile isPlain
    let goOn := fun t r => (fillWith fields expand fuel r).map fun more => start ++ t ++ more
    match s.dropWhile isPlain with
    | [] => .ok start
    -- a brace that is written twice stands for itself
    | '\x7b' :: '\x7b' :: r => goOn ['\x7b'] r
    | '\x7d' :: '\x7d' :: r => goOn ['\x7d'] r
    | '\x7d' :: _ => .error (malformed "Single '\x7d' encountered in format string")
    | [_] => .error (malformed "Single '\x7b' encountered in format string")
    | _ :: r => do
      let (f, r) ← readField r
      goOn (← fieldText fields expand f) r

/-- Fills a template in, in which fields are nested at most `depth` deep. -/
def fillNested (fields : Fields) : (depth : Nat) → Text → Except Trouble Text
  | 0, _ => .error (malformed "Max string recursion exceeded")
  | depth + 1, s => fillWith fields (fillNested fields depth) s.length s

/-- Fills a template in. -/
def fill (fields : Fields) (s : Text) : Except Trouble Text := fillNested fields 2 s

end EntryRef.Template
