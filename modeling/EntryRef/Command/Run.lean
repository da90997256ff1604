import EntryRef.Archive.Contents
import EntryRef.Command.Usage
import EntryRef.Reference.Normal
import EntryRef.Scratch.Opening
import EntryRef.Table

/-!
# Runs

A run reads a command line, finds the reference that its identifier stands for, and does with it
what the mode says. `run` tells the `Outcome`: how the run ends, what it writes, and the scratch
directories that it leaves.

Errors of references, of archives and of the names of scratch directories are reported in a line;
other troubles break the run.
-/

namespace EntryRef.Command

open Text

/-- What a run depends on. -/
structure Setting where
  /-- Opens archives. -/
  opener : Opener .standard
  /-- What opening a scratch directory depends on. -/
  scratch : Scratch.Surroundings
  /-- The tokens for the names of files. -/
  tokens : List Text

/-- What may go wrong in a run. -/
inductive Problem
  /-- The identifier is malformed. -/
  | malformed (why : Malformed)
  /-- An operation on the archive fails. -/
  | failure (why : Failure .standard)
  /-- There is no scratch directory. -/
  | noScratch (why : Scratch.OpenFault)

namespace Problem

/-- The words for a problem, or for the trouble with telling them. -/
def message : Problem → Text
  | .malformed why => why.message
  | .failure why => why.message
  | .noScratch why =>
    match why.words with
    | .ok words => words
    | .error why => why.words

/-- Is the problem reported? -/
def isReported : Problem → Bool
  | .malformed _ | .failure (.archive _) | .noScratch (.noName _) => true
  | .failure _ | .noScratch _ => false

end Problem

/-! ### Messages about the run -/

/-- What a message tells. -/
inductive Note
  /-- The identifier stands for no reference. -/
  | notApplicable (identifier : Text)
  /-- A scratch directory has been made. -/
  | created (path : Text)
  /-- A scratch directory is about to be closed. -/
  | closing (path : Text)
  /-- Something happens to an archive. -/
  | archive (e : Event)
deriving DecidableEq

/-- The message, if there is one. -/
def Note.line? : Note → Option Text
  | .notApplicable s => some ("DEBUG:klsurl.url:Not an archive entry identifier: '" ++ s ++ "'\n")
  | .created p => some ("DEBUG:klsurl.tempdir:Created temporary directory '" ++ p ++ "'\n")
  | .closing p => some ("DEBUG:klsurl.tempdir:Closing temporary directory '" ++ p ++ "'\n")
  | .archive (.opened p) => some ("DEBUG:klsurl.archive.jar:Opened archive '" ++ p ++ "'\n")
  | .archive (.extracted s p) =>
    some ("DEBUG:klsurl.archive.jar:Extracted '" ++ s ++ "' to '" ++ p ++ "'\n")
  | .archive (.closed p) => some ("DEBUG:klsurl.archive.jar:Closed archive '" ++ p ++ "'\n")
  | .archive (.opening _) | .archive (.lookup _) | .archive .listing | .archive .closing => none

/-! ### Modes -/

/-- What a mode comes to: what is written or what goes wrong, messages, and the scratch directories
that are left. -/
structure Result where
  output : Except Problem Text
  notes : List Note
  left : List Scratch.Directory

/-- A truth value in a table. -/
def truth (b : Bool) : Text := (Given.truth b).toText

/-- The table of what a reference is made of. -/
def infoTable (u : Reference .standard) (path : Text) (source : FlagValue) : Table :=
  ⟨[],
    [["Url".toList, u.toText],
      ["Base Locator".toList, u.base],
      ["Archive Path".toList, path],
      ["Inner Path".toList, u.inner?.getD []],
      ["File Name".toList, u.fileName],
      ["Extension".toList, u.extension?.getD []],
      ["Compiled".toList, truth u.isCompiled],
      ["Source".toList, source.toGiven.toText]]⟩

/-- What a reference is made of. -/
def info (u : Reference .standard) : Except Problem Text :=
  match u.archivePath with
  | .error why => .error (.failure (.authority why))
  | .ok path =>
    let source := u.source.toOption.getD Flag.source.default
    .ok ((infoTable u path source).toText ++ ['\n'])

/-- The table of references. -/
def listTable (us : List (Reference .standard)) : Table :=
  ⟨["Url".toList], us.map fun u => [u.toText]⟩

/-- What comes of an operation on an archive that leaves no directory. -/
def Result.ofTraced (r : Traced (Except (Failure .standard) Text)) : Result :=
  ⟨r.value.mapError .failure, r.events.map .archive, []⟩

/-- Copies the entry to a file in a new scratch directory, which stays. -/
def extractTo (s : Setting) (parent : Option Text) (u : Reference .standard) : Result :=
  match Scratch.openDirectory s.scratch (some Scratch.firstName) ⟨none, parent, false⟩ with
  | .error why => ⟨.error (.noScratch why), [], (why.made?.map Scratch.Directory.close).toList⟩
  | .ok d =>
    let r := extract s.opener u d s.tokens
    ⟨(r.value.result.mapError .failure).map (· ++ ['\n']),
      .created d.path :: r.events.map .archive ++ [.closing d.path], [r.value.directory.close]⟩

/-- Does with a reference what the mode says. -/
def perform (s : Setting) (parent : Option Text) (u : Reference .standard) : Mode → Result
  | .info => ⟨info u, [], []⟩
  | .list => .ofTraced do
    return (← listEntries s.opener u).map fun us => (listTable us).toText ++ ['\n']
  -- the default encoding is built in
  | .cat => .ofTraced (readText Codecs.builtIn s.opener u none)
  | .extract => extractTo s parent u

/-! ### Runs -/

/-- How a run ends. -/
inductive Ending
  /-- It comes to its end, with a code. -/
  | finished (code : Nat)
  /-- The command line is answered and not carried out. -/
  | dismissed (code : Nat)
  /-- A problem breaks it. -/
  | broken (why : Problem)

/-- What comes of a run. -/
structure Outcome where
  ending : Ending
  /-- What is written to the standard output. -/
  output : Text
  /-- What is written to the standard error. -/
  errors : Text
  /-- The scratch directories that are left. -/
  left : List Scratch.Directory

/-- The text of an identifier: an empty one, or one that has vanished, is as good as none, except
where an entry is to be extracted. There one that has vanished is an empty list. -/
def identifierText : Mode → Option Text → Text
  | .extract, none => "[]"
  | .extract, some s => s
  | _, none | _, some [] => "None"
  | _, some s => s

/-- Ends a run with a problem. -/
def Outcome.ofProblem (errors : Text) (left : List Scratch.Directory) (why : Problem) : Outcome :=
  if why.isReported then ⟨.finished 1, [], errors ++ "ERROR: " ++ why.message ++ ['\n'], left⟩
  else ⟨.broken why, [], errors, left⟩

/-- Ends a run with what a mode has come to; `errors` turns messages into text. -/
def Outcome.ofResult (errors : List Note → Text) (r : Result) : Outcome :=
  match r.output with
  | .ok output => ⟨.finished 0, output, errors r.notes, r.left⟩
  | .error why => .ofProblem (errors r.notes) r.left why

/-- The text of messages, if they are wanted. -/
def logged (debug : Bool) (notes : List Note) : Text :=
  if debug then (notes.filterMap Note.line?).flatten else []

/-- Carries out what a command line asks for. -/
def carryOut (s : Setting) (i : Invocation) : Outcome :=
  let identifier := identifierText i.mode i.identifier
  match Reference.normalizeText .standard identifier with
  | .error why => .ofProblem [] [] (.malformed why)
  | .ok none =>
    ⟨.finished 1, [], logged i.debug [.notApplicable identifier] ++
      "'" ++ identifier ++ "' does not reference a file or an archive entry\n", []⟩
  | .ok (some u) => .ofResult (logged i.debug) (perform s i.directory u i.mode)

/-- The reference that a command line is about. -/
def reference? (ws : List Text) : Option (Invocation × Reference .standard) :=
  match Invocation.ofWords ws with
  | .error _ => none
  | .ok i =>
    match Reference.normalizeText .standard (identifierText i.mode i.identifier) with
    | .ok (some u) => some (i, u)
    | _ => none

/-- The path of the archive that a command line needs. -/
def archiveNeeded? (ws : List Text) : Option Text :=
  match reference? ws with
  | some (i, u) => if i.mode = .info then none else u.archivePath.toOption
  | none => none

/-- The parent of the scratch directory, where a command line names one. -/
def directoryNamed? (ws : List Text) : Option Text :=
  (reference? ws).bind fun (i, _) => i.directory

/-- Runs a command line. -/
def run (s : Setting) (ws : List Text) : Outcome :=
  match Invocation.ofWords ws with
  | .ok i => carryOut s i
  | .error .help => ⟨.dismissed 0, help, [], []⟩
  | .error (.fault why) => ⟨.dismissed 2, [], why.shown, []⟩

end EntryRef.Command
