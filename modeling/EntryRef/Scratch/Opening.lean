import EntryRef.Scratch.Directory
import EntryRef.Scratch.Name
import EntryRef.Template

/-!
# Opening scratch directories

A scratch directory is made in a parent directory: the one that is asked for, or the one that a
variable of the environment names, or the system's own. Its name is `tmp`, a random part, and the
name for scratch directories.

Once it is made, its path is looked at again with the variables of the environment put in, and has
to lead to it. The message that says that it does not is a template, in which a brace of the path
opens a field.

What is proved about opening rests on the following behaviour of the system and of the package `fs`.
The directory is made by one call, at a path that is joined of the parent directory as it is written
and the name (`within`), and is known by the plain form of that path from then on (`plainText`). The
package looks at the path once more, with variables put in, and gives up if no directory is there.
That is taken to be so whenever the plain form of this path is another one: variables whose values
lead to a directory that exists are left out, and so is a tilde at the start of a relative path,
which stands for a home directory. A directory that is given up is closed like any other.
-/

namespace EntryRef.Scratch

open Text

/-- What opening a scratch directory depends on. -/
structure Surroundings where
  /-- The directories that exist, beside those that they are in. -/
  parents : List Text
  /-- The system's directory for temporary files. -/
  system : Text
  /-- The parent directory that the environment names. -/
  named : Option Text
  /-- The variables of the environment. -/
  environment : List (Text × Text)
  /-- The directory that relative paths are seen from. -/
  cwd : Path.Posix
  /-- The random part of names. -/
  fresh : Text

/-- What is asked for. -/
structure Request where
  /-- The name, unless the default will do. -/
  name : Option Text
  /-- The parent directory, unless the usual one will do. -/
  parent : Option Text
  /-- Is the directory to be removed when it is closed? -/
  autoClean : Bool

/-- Why there is no scratch directory. -/
inductive OpenFault
  /-- There is no name for it. -/
  | noName (why : NoName)
  /-- The system does not make it. -/
  | trouble (why : Trouble)
  /-- It is not found after all, as a template says. `made` is what has been made. -/
  | lost (template : Text) (made : Directory)
  /-- It is not found after all, and the template that says so cannot be filled in. -/
  | untold (why : Trouble) (made : Directory)
deriving DecidableEq

/-- The fields that the template of a message may name. -/
def messageFields (template : Text) : Template.Fields :=
  [("_msg".toList, .text template), ("details".toList, .text []), ("exc".toList, .nothing)]

/-- A message that is told by a template. -/
def messageOf (template : Text) : Except Trouble Text :=
  Template.fill (messageFields template) template

/-- The fault of a directory that has been made and is not found at the path `root`. -/
def lostAt (parent : Option Text) (root : Text) (made : Directory) : OpenFault :=
  match messageOf ("root path '" ++ root ++ "' does not exist") with
  | .error why => .untold why made
  | .ok words =>
    .lost ("Failed to create temporary directory in '" ++ parent.getD "None" ++ "': " ++ words ++
      " ") made

/-- The words for a fault, as far as they can be told. -/
def OpenFault.words : OpenFault → Except Trouble Text
  | .noName why => .ok why.message
  | .trouble why | .untold why _ => .ok why.words
  | .lost template _ => messageOf template

/-- What has been made before a fault. -/
def OpenFault.made? : OpenFault → Option Directory
  | .noName _ | .trouble _ => none
  | .lost _ made | .untold _ made => some made

/-! ### Paths -/

/-- One segment of a path in its plain form, `up` being the segments before it in reverse. -/
def climb (rooted : Bool) (up : List Text) (segment : Text) : List Text :=
  if segment = ['.', '.'] then
    match up with
    | [] => if rooted then [] else [segment]
    | last :: rest => if last = segment then segment :: up else rest
  else segment :: up

/-- The path without segments that go up, as far as they can be left out. -/
def plain (p : Path.Posix) : Path.Posix :=
  { p with segments := (p.segments.foldl (climb p.isAbsolute) []).reverse }

/-- The plain text of a path, which is seen from the directory `cwd`. -/
def plainText (cwd : Path.Posix) (path : Text) : Text :=
  (plain ((Path.Posix.ofText path).absolute cwd)).toText

/-- The path of something in a directory. -/
def within (directory name : Text) : Text :=
  if directory.isEmpty || directory.getLast? = some '/' then directory ++ name
  else directory ++ '/' :: name

/-! ### Variables of the environment -/

/-- May `c` stand in the name of a variable? -/
def isVariableChar (c : Char) : Bool := c.isAlphanum || c == '_'

/-- The name of a variable behind a dollar sign, how it is written there, and what follows: letters,
digits and underscores, or anything in braces. -/
def namedVariable? (s : Text) : Option (Text × Text × Text) :=
  match s with
  | '\x7b' :: r =>
    (after? '\x7d' r).map fun rest =>
      let name := before '\x7d' r
      (name, '\x7b' :: name ++ ['\x7d'], rest)
  | s =>
    let name := s.takeWhile isVariableChar
    if name.isEmpty then none else some (name, name, s.dropWhile isVariableChar)

/-- One step of putting variables in. What names no variable stays as it is written. -/
def expandStep (environment : List (Text × Text)) (c : Char) (r : Text) : Text × Text :=
  if c = '$' then
    match namedVariable? r with
    | some (name, written, rest) => ((environment.lookup name).getD ('$' :: written), rest)
    | none => (['$'], r)
  else ([c], r)

/-- A text with the variables of the environment put in. -/
def expand (environment : List (Text × Text)) (s : Text) : Text :=
  (chop (expandStep environment) s).flatten

/-- The names of the variables in a text. -/
def variableNames (s : Text) : List Text :=
  (chop (fun c r =>
    match if c = '$' then namedVariable? r else none with
    | some (name, _, rest) => ([name], rest)
    | none => ([], r)) s).flatten

/-! ### Opening -/

/-- The start of the names of scratch directories. -/
def nameStart : Text := "tmp"

/-- The parent directory for a request, as it is written. -/
def parentFor (s : Surroundings) (r : Request) : Option Text :=
  match r.parent with
  | none | some [] => s.named
  | some p => some p

/-- Is there a directory at the end of some segments from the root on? -/
def Surroundings.hasDirectory (s : Surroundings) (segments : List Text) : Bool :=
  s.parents.any fun p => segments.isPrefixOf (Path.Posix.ofText p).segments

/-- Goes along segments from a directory, `up` being the segments that lead to it in reverse. The
number of the system's refusal is told if one of them is too long or leads to no directory. -/
def refusal? (s : Surroundings) : (up : List Text) → List Text → Option Nat
  | up, [] => if s.hasDirectory up.reverse then none else some 2
  | up, segment :: rest =>
    let up' := climb true up segment
    if (Utf8.encode segment).length > maxName then some 36
    else if s.hasDirectory up'.reverse then refusal? s up' rest
    else some 2

/-- The segments, in reverse, of the directory that a path starts from. -/
def origin (cwd : Path.Posix) (path : Text) : List Text :=
  if (Path.Posix.ofText path).isAbsolute then [] else cwd.segments.reverse

/-- The directories that a path leads through, the one that it starts from included. -/
def stations (cwd : Path.Posix) (path : Text) : List Text :=
  let p := Path.Posix.ofText path
  ((List.range (p.segments.length + 1)).map fun n =>
    plainText cwd (Path.Posix.toText { p with segments := p.segments.take n }))

/-- Makes a directory at a path in a parent directory, unless the system refuses. -/
def make (s : Surroundings) (parent name : Text) : Except Trouble Unit :=
  let path := within parent name
  let first := before '/' name
  let isDeep := (dropTrailing (· == '/') name).contains '/'
  if path.contains '\x00' then .error .nullCharacter
  else if (Utf8.encode path).length ≥ maxPath then .error (.system 36 (some path))
  else match refusal? s (origin s.cwd parent) (Path.Posix.ofText parent).segments with
    | some code => .error (.system code (some path))
    | none =>
      if (Utf8.encode first).length > maxName then .error (.system 36 (some path))
      else if isDeep then .error (.system 2 (some path))
      else .ok ()

/-- Opens a scratch directory. -/
def openDirectory (s : Surroundings) (default : Option Text) (r : Request) :
    Except OpenFault Directory :=
  match nameFor default r.name with
  | .error why => .error (.noName why)
  | .ok name =>
    let parent := (parentFor s r).getD s.system
    let full := nameStart ++ s.fresh ++ name
    match make s parent full with
    | .error why => .error (.trouble why)
    | .ok () =>
      let path := within parent full
      let made : Directory := ⟨plainText s.cwd path, r.autoClean, false, some []⟩
      let root := plainText s.cwd (expand s.environment path)
      if root = made.path then .ok made else .error (lostAt (parentFor s r) root made)

/-! ### Names -/

/-- The name of the directory that a scratch directory is in. -/
def parentName (path : Text) : Text := (Path.Posix.ofText path).parent.name

/-- The name of a scratch directory without the random part, which has the given length, and what
stands before it. -/
def suffixOf (fresh : Nat) (path : Text) : Text :=
  (Path.Posix.ofText path).name.drop (nameStart.length + fresh)

end EntryRef.Scratch
