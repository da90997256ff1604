import EntryRef.Flag.Basic

/-!
# Queries

`Flags table` holds a value or nothing for each flag of a table. A query writes the flags that are
set as `name=value` with `&` between them. Reading a query takes for each flag the last such token
whose value the flag accepts; no other token matters.
-/

namespace EntryRef

open Text

/-- For each flag of the table a value, or nothing where the flag is not set. -/
structure Flags (table : FlagTable) where
  /-- The values in the order of the table. -/
  values : List (Option FlagValue)
  /-- There is one place for each flag. -/
  length_values : values.length = table.length
deriving DecidableEq

/-- The value that a token of a query gives a flag: it has to be the flag's name, an equality sign
and a value that the flag accepts, without another equality sign. -/
def Flag.ofToken? (f : Flag) (token : Text) : Option FlagValue :=
  match pieces '=' token with
  | [name, value] => if name = f.name then (f.read value).toOption else none
  | _ => none

namespace Flags

variable {table : FlagTable}

/-- No flag is set. -/
def none (table : FlagTable) : Flags table :=
  ⟨table.map fun _ => Option.none, by simp⟩

/-- Reads a query. -/
def ofQuery (table : FlagTable) (query : Text) : Flags table :=
  ⟨table.map fun f => ((pieces '&' query).filterMap f.ofToken?).getLast?, by simp⟩

/-- The tokens of the flags that are set. -/
def tokens (q : Flags table) : List Text :=
  (table.zip q.values).filterMap fun (f, v) => v.map fun v => f.name ++ '=' :: f.write v

/-- Why the flags are not written, if they are not: the reason of the first one that is not. -/
def unwritable? (q : Flags table) : Option FlagFault :=
  (table.zip q.values).findSome? fun (f, v) => v.bind f.unwritable?

/-- Writes a query with a question mark in front, or nothing where no flag is set. The numbers among
the values may have any length. -/
def toQuery (q : Flags table) : Text :=
  match q.tokens with
  | [] => []
  | ts => '?' :: joined "&" ts

/-- The index of the flag with a name. -/
def index? (table : FlagTable) (name : Text) : Option Nat :=
  table.findIdx? fun f => f.name = name

/-- The value of a flag, or its default where it is not set. -/
def get (q : Flags table) (name : Text) : Except FlagFault FlagValue :=
  match (table.zip q.values).find? fun (f, _) => f.name = name with
  | some (f, v) => .ok (v.getD f.default)
  | Option.none => .error (.unknown name)

/-- Puts a value, or nothing, at an index. -/
def put (q : Flags table) (i : Nat) (v : Option FlagValue) : Flags table :=
  ⟨q.values.set i v, by simp [q.length_values]⟩

/-- Do two values, of which each may be missing, stand for the same? -/
def sameValue : Option FlagValue → Option FlagValue → Bool
  | some v, some w => v.same w
  | Option.none, Option.none => true
  | _, _ => false

/-- Do all flags stand for the same? -/
def same (q r : Flags table) : Bool := (q.values.zip r.values).all fun (v, w) => sameValue v w

/-- The value that a flag takes for a given one: a text is read, and nothing unsets the flag. -/
def accept (f : Flag) : Given → Except FlagFault (Option FlagValue)
  | .nothing => .ok Option.none
  | .words t => (f.read t).map some
  | v => (f.take v).map some

/-- Sets a flag to a given value. -/
def set (q : Flags table) (name : Text) (v : Given) : Except FlagFault (Flags table) :=
  match table.find? fun f => f.name = name, index? table name with
  | some f, some i => (accept f v).map (q.put i)
  | _, _ => .error (.unknown name)

end Flags

end EntryRef
