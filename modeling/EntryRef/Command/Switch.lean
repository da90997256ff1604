import EntryRef.Text.Decimal

/-!
# Words of the command line

A command line is a list of words. `Word.ofText` tells what a word is: a switch, perhaps with a
value attached to it, or a value. A switch is written with its letter behind one dash or with its
name behind two, and a name may be cut short as long as no other switch starts like it.

After the word `--` every word is a value (`Word.ofTexts`).
-/

namespace EntryRef.Command

open Text

/-- What a run does with the reference it is given. -/
inductive Mode
  /-- Shows what the reference is made of. -/
  | info
  /-- Lists the entries of the archive. -/
  | list
  /-- Shows the text of the entry. -/
  | cat
  /-- Copies the entry to a file. -/
  | extract
deriving DecidableEq

/-- The switches. -/
inductive Switch
  | help
  | debug
  | directory
  | mode (m : Mode)
deriving DecidableEq

namespace Mode

/-- The modes, in the order in which they are shown. -/
def all : List Mode := [.info, .list, .cat, .extract]

/-- The letter of a mode's switch. -/
def letter : Mode → Char
  | .info => 'i'
  | .list => 'l'
  | .cat => 'c'
  | .extract => 'x'

/-- The name of a mode's switch. -/
def name : Mode → Text
  | .info => "info"
  | .list => "list"
  | .cat => "cat"
  | .extract => "extract"

end Mode

namespace Switch

/-- The switches, in the order in which they are shown. -/
def all : List Switch := [.help, .debug, .directory] ++ Mode.all.map .mode

/-- The letter of a switch. -/
def letter : Switch → Char
  | .help => 'h'
  | .debug => 'd'
  | .directory => 'D'
  | .mode m => m.letter

/-- The name of a switch. -/
def name : Switch → Text
  | .help => "help"
  | .debug => "debug"
  | .directory => "dir"
  | .mode m => m.name

/-- Does the switch take a value? -/
def takesValue : Switch → Bool
  | .help | .debug => false
  | .directory | .mode _ => true

/-- A switch in its long form. -/
def long (s : Switch) : Text := '-' :: '-' :: s.name

/-- Both forms of a switch. -/
def label (s : Switch) : Text := ['-', s.letter, '/'] ++ s.long

/-- The switch of a letter. -/
def ofLetter? (c : Char) : Option Switch := all.find? fun s => s.letter == c

/-- The switch of a name. -/
def ofName? (t : Text) : Option Switch := all.find? fun s => s.name == t

/-- The switches whose names start with a text. -/
def starting (t : Text) : List Switch := all.filter fun s => t.isPrefixOf s.name

end Switch

/-- A word of the command line. -/
inductive Word
  /-- A word that is no switch. -/
  | value (w : Text)
  /-- The word behind which all words are values. -/
  | stop
  /-- A word that looks like a switch and is none. -/
  | unknown (w : Text)
  /-- A switch by its name, with the value behind an equals sign. -/
  | named (s : Switch) (attached : Option Text)
  /-- A switch by its letter, with what stands behind the letter or behind an equals sign. -/
  | lettered (s : Switch) (attached : Option Text)
deriving DecidableEq

namespace Word

/-- A text without the line feed at its end. -/
def dropFeed (s : Text) : Text := if s.getLast? = some '\n' then s.dropLast else s

/-- Is the word a negative number? -/
def isNegative : Text → Bool
  | '-' :: r =>
    let isDigit := fun c => (digitValue? c).isSome
    match (dropFeed r).takeWhile isDigit, (dropFeed r).dropWhile isDigit with
    | whole, [] => !whole.isEmpty
    | _, '.' :: places => !places.isEmpty && places.all isDigit
    | _, _ => false
  | _ => false

/-- A word that starts with a dash and is the form of no switch. -/
def ofOther (w : Text) : Word := if isNegative w || w.contains ' ' then .value w else .unknown w

/-- What a word is. A start of the names of several switches is ambiguous. -/
def ofText (w : Text) : Except (List Switch) Word :=
  match w with
  | '-' :: '-' :: r =>
    let name := before '=' r
    let attached := after? '=' r
    match Switch.ofName? name, Switch.starting name with
    | some s, _ | none, [s] => .ok (.named s attached)
    | none, [] => .ok (ofOther w)
    | none, several => .error several
  | '-' :: c :: r =>
    match Switch.ofLetter? c, r with
    | some s, [] => .ok (.lettered s none)
    | some s, '=' :: v => .ok (.lettered s (some v))
    | some s, v => .ok (.lettered s (some v))
    | none, _ => .ok (ofOther w)
  | w => .ok (.value w)

/-- What the words of a command line are. An ambiguous word is told with its candidates. -/
def ofTexts : List Text → Except (Text × List Switch) (List Word)
  | [] => .ok []
  | w :: ws =>
    if w = ['-', '-'] then .ok (.stop :: ws.map .value)
    else match ofText w with
      | .error several => .error (w, several)
      | .ok word => (ofTexts ws).map (word :: ·)

end Word

end EntryRef.Command
