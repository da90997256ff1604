import EntryRef.Text.Quoted

/-!
# Members of archives

What the directory of an archive says about a member, and how a member is shown.
-/

namespace EntryRef.Zip

open Text

/-- A member of an archive, as the directory describes it. -/
structure Member where
  /-- The name in the directory. -/
  storedName : Text
  /-- The flags. -/
  flags : Nat
  /-- The number of the compression method. -/
  method : Nat
  /-- The check of the data. -/
  crc : Nat
  /-- The size of the compressed data. -/
  compressedSize : Nat
  /-- The size of the data. -/
  size : Nat
  /-- The attributes for a file system: those of Unix in the upper half, others in the lower. -/
  attributes : Nat
  /-- The place of the member's header in the file. -/
  start : Int
  /-- The place where the next member or the directory starts. -/
  stop : Int
deriving DecidableEq

namespace Member

/-- The name, which ends where the stored name has a null character. -/
def name (m : Member) : Text := before '\x00' m.storedName

/-- Is the flag of the given value set? -/
def hasFlag (m : Member) (flag : Nat) : Bool := m.flags / flag % 2 == 1

/-- Is the member a directory? There is no answer for an empty name. -/
def isDirectory? (m : Member) : Option Bool := m.name.getLast?.map (· == '/')

/-- Is the member to be left out of lists, though it is a file: the metadata of a packing program,
or a hidden file? -/
def isHidden (m : Member) : Bool :=
  "__MACOSX/".toList.isPrefixOf m.name || (afterLast '/' m.name).head? == some '.'

/-! ### How a member is shown -/

/-- The names of compression methods. -/
def methodNames : List (Nat × String) :=
  [(0, "store"), (1, "shrink"), (2, "reduce"), (3, "reduce"), (4, "reduce"), (5, "reduce"),
    (6, "implode"), (7, "tokenize"), (8, "deflate"), (9, "deflate64"), (10, "implode"),
    (12, "bzip2"), (14, "lzma"), (18, "terse"), (19, "lz77"), (97, "wavpack"), (98, "ppmd")]

/-- The name of a compression method, or else its number. -/
def methodName (method : Nat) : Text :=
  match methodNames.lookup method with
  | some name => name
  | none => ofNat method

/-- The letter for the type of a file. -/
def typeLetter (mode : Nat) : Char :=
  match mode / 4096 % 16 with
  | 1 => 'p'
  | 2 => 'c'
  | 4 => 'd'
  | 6 => 'b'
  | 8 => '-'
  | 10 => 'l'
  | 12 => 's'
  | _ => '?'

/-- The letters for three permissions. The last shows a special bit too, by the letter `special` in
lower case where the permission is there and in upper case where it is not. -/
def permissionLetters (bits : Nat) (isSpecial : Bool) (special : Char) : Text :=
  [if bits / 4 % 2 = 1 then 'r' else '-', if bits / 2 % 2 = 1 then 'w' else '-',
    match bits % 2 == 1, isSpecial with
    | true, true => special
    | false, true => special.toUpper
    | true, false => 'x'
    | false, false => '-']

/-- The type and the permissions of a file. -/
def modeText (mode : Nat) : Text :=
  typeLetter mode :: (permissionLetters (mode / 64) (mode / 2048 % 2 == 1) 's' ++
    permissionLetters (mode / 8) (mode / 1024 % 2 == 1) 's' ++
    permissionLetters mode (mode / 512 % 2 == 1) 't')

/-- How a member is shown, if it can be told whether it is a directory. -/
def shown? (m : Member) : Option Text := do
  let directory ← m.isDirectory?
  let part (there : Bool) (t : Text) : Text := if there then t else []
  let mode := m.attributes / 65536
  let other := m.attributes % 65536
  return "<ZipInfo filename=" ++ quoted m.name ++
    part (m.method != 0) (" compress_type=" ++ methodName m.method) ++
    part (mode != 0) (" filemode=" ++ quoted (modeText mode)) ++
    part (other != 0) (" external_attr=0x" ++ Nat.toDigits 16 other) ++
    part (!directory || m.size != 0) (" file_size=" ++ ofNat m.size) ++
    part ((!directory || m.compressedSize != 0) && (m.method != 0 || m.size != m.compressedSize))
      (" compress_size=" ++ ofNat m.compressedSize) ++ ">"

end Member

end EntryRef.Zip
