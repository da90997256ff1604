import EntryRef.Command.Switch
import EntryRef.Text.Quoted

/-!
# What a command line asks for

`Invocation.ofWords` reads a command line. It asks for one mode and gives the identifier for it; it
may ask for messages about the run and name a directory for the files that are made.

A command line that cannot be read has a `UsageFault`, and one that asks for help is not read
further.
-/

namespace EntryRef.Command

open Text

/-- Why a command line cannot be read. -/
inductive UsageFault
  /-- A word is the start of several names. -/
  | ambiguous (word : Text) (several : List Switch)
  /-- A switch has no value. -/
  | noValue (s : Switch)
  /-- A switch has a value that it does not take. -/
  | ignoredValue (s : Switch) (v : Text)
  /-- A mode is asked for beside another one. -/
  | conflict (new old : Mode)
  /-- No mode is asked for. -/
  | noMode
  /-- There are words that mean nothing. -/
  | unrecognized (ws : List Text)
deriving DecidableEq

/-- The words for a fault. -/
def UsageFault.message : UsageFault → Text
  | .ambiguous word several =>
    "ambiguous option: " ++ word ++ " could match " ++ joined ", " (several.map Switch.long)
  | .noValue s => "argument " ++ s.label ++ ": expected one argument"
  | .ignoredValue s v => "argument " ++ s.label ++ ": ignored explicit argument " ++ quoted v
  | .conflict new old =>
    "argument " ++ (Switch.mode new).label ++ ": not allowed with argument " ++
      (Switch.mode old).label
  | .noMode =>
    "one of the arguments " ++ joined " " (Mode.all.map fun m => (Switch.mode m).label) ++
      " is required"
  | .unrecognized ws => "unrecognized arguments: " ++ joined " " ws

/-- Why the reading of a command line ends early. -/
inductive Halt
  /-- Help is asked for. -/
  | help
  /-- The command line cannot be read. -/
  | fault (why : UsageFault)
deriving DecidableEq

/-- The switches in one word: those without values, and the last one with its value, if the word
tells one. -/
structure Cluster where
  plain : List Switch
  last : Switch
  value : Option Text

/-- The switches of a word that starts with the letter of a switch and goes on with further
characters. As long as the switches take no values, the characters are letters of switches. -/
def Cluster.ofLetters (s : Switch) (attached : Text) : Except UsageFault Cluster :=
  match s.takesValue, attached with
  | true, v => .ok ⟨[], s, some v⟩
  | false, [] => .error (.ignoredValue s [])
  | false, c :: rest =>
    match Switch.ofLetter? c, rest with
    | none, _ => .error (.ignoredValue s (c :: rest))
    | some t, [] => .ok ⟨[s], t, none⟩
    | some t, rest => (ofLetters t rest).map fun k => { k with plain := s :: k.plain }

/-- What a command line asks for. -/
structure Invocation where
  /-- Are there to be messages about the run? -/
  debug : Bool
  /-- The parent of the scratch directory. -/
  directory : Option Text
  /-- What is done. -/
  mode : Mode
  /-- The identifier of what it is done with, unless it has vanished. -/
  identifier : Option Text
deriving DecidableEq

/-- What has been read of a command line. -/
structure Draft where
  debug : Bool
  directory : Option Text
  choice : Option (Mode × Option Text)
  /-- The switches of the last word, if the last of them waits for its value. -/
  waiting : Option (List Switch × Switch)
  /-- The words that mean nothing, the latest first. -/
  extra : List Text

namespace Draft

/-- Nothing has been read. -/
def start : Draft := ⟨false, none, none, none, []⟩

/-- The value that is attached to a switch, unless it vanishes, since it is the word `--`. -/
def valueOf (v : Text) : Option Text := if v = ['-', '-'] then none else some v

/-- Adds a switch with its value. The value of a switch that takes none does not matter. -/
def add (d : Draft) (s : Switch) (v : Text) : Except Halt Draft :=
  match s with
  | .help => .error .help
  | .debug => .ok { d with debug := true }
  | .directory => .ok { d with directory := valueOf v }
  | .mode m =>
    match d.choice with
    | some (old, _) =>
      if old = m then .ok { d with choice := some (m, valueOf v) }
      else .error (.fault (.conflict m old))
    | none => .ok { d with choice := some (m, valueOf v) }

/-- Adds switches without values and then one with its value. -/
def addAll (d : Draft) (plain : List Switch) (s : Switch) (v : Text) : Except Halt Draft := do
  (← plain.foldlM (fun d t => d.add t []) d).add s v

/-- Adds the switches of a word. The last one waits for its value, if it takes one and has none yet.
-/
def addCluster (d : Draft) : Cluster → Except Halt Draft
  | ⟨plain, s, some v⟩ => d.addAll plain s v
  | ⟨plain, s, none⟩ =>
    if s.takesValue then .ok { d with waiting := some (plain, s) } else d.addAll plain s []

/-- Adds a word that means nothing. -/
def addExtra (d : Draft) (w : Text) : Draft := { d with extra := w :: d.extra }

/-- Reads a word. -/
def read (d : Draft) (w : Word) : Except Halt Draft :=
  match d.waiting, w with
  | some (plain, s), .value v => { d with waiting := none }.addAll plain s v
  | some (_, s), _ => .error (.fault (.noValue s))
  | none, .value w | none, .unknown w => .ok (d.addExtra w)
  | none, .stop => .ok (d.addExtra ['-', '-'])
  | none, .named s none | none, .lettered s none => d.addCluster ⟨[], s, none⟩
  | none, .named s (some v) =>
    if s.takesValue then d.add s v else .error (.fault (.ignoredValue s v))
  | none, .lettered s (some v) =>
    match Cluster.ofLetters s v with
    | .ok k => d.addCluster k
    | .error why => .error (.fault why)

/-- What is asked for, once all has been read. -/
def finish (d : Draft) : Except Halt Invocation :=
  match d.waiting, d.choice, d.extra.reverse with
  | some (_, s), _, _ => .error (.fault (.noValue s))
  | none, none, _ => .error (.fault .noMode)
  | none, some (m, s), [] => .ok ⟨d.debug, d.directory, m, s⟩
  | none, some _, ws => .error (.fault (.unrecognized ws))

end Draft

/-- Reads a command line. -/
def Invocation.ofWords (ws : List Text) : Except Halt Invocation :=
  match Word.ofTexts ws with
  | .error (w, several) => .error (.fault (.ambiguous w several))
  | .ok words => do (← words.foldlM Draft.read Draft.start).finish

end EntryRef.Command
