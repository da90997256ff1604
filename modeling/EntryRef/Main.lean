import EntryRef.Command.Run
import EntryRef.Zip.Archive

/-!
# The command line

`main` looks up what a run depends on, runs the command line, and carries the outcome out: it writes
what is to be written and makes the scratch directories that are left.
-/

namespace EntryRef

open Text

/-- The number of a refusal, which some calls tell with a minus sign. -/
def plainCode (code : UInt32) : Nat :=
  if code.toNat < 0x80000000 then code.toNat else 0x100000000 - code.toNat

/-- The number of a refusal of the system; an input or output error where there is none. -/
def systemCode : IO.Error → Nat
  | .noFileOrDirectory _ code _ | .permissionDenied _ code _ | .inappropriateType _ code _
  | .invalidArgument _ code _ | .resourceExhausted _ code _ | .alreadyExists _ code _
  | .otherError code _ | .resourceBusy code _ | .hardwareFault code _ => plainCode code
  | _ => 5

/-- The bytes of a file, or the number of the system's refusal. -/
def fileBytes (path : Text) : IO (Except Nat Bytes) := do
  try
    return .ok (← IO.FS.readBinFile (String.ofList path)).toList
  catch e => return .error (systemCode e)

/-- The file that a run reads. -/
def filesFor (ws : List Text) : IO Zip.Files := do
  match Command.archiveNeeded? ws with
  | some path =>
    if path.contains '\x00' then return [] else return [(path, ← fileBytes path)]
  | none => return []

/-- Is there a directory at a path? -/
def isDirectory (path : Text) : IO Bool := do
  try
    (← IO.FS.realPath (String.ofList path)).isDir
  catch _ => return false

/-- A variable of the environment. -/
def variableOf (name : Text) : IO (Option Text) := do
  return (← IO.getEnv (String.ofList name)).map String.toList

/-- Random letters, digits and underscores. -/
def freshName (size : Nat) : IO Text := do
  let letters := "abcdefghijklmnopqrstuvwxyz0123456789_".toList
  return (← IO.getRandomBytes size.toUSize).toList.map fun b =>
    letters.getD (b.toNat % letters.length) '_'

/-- A random token for the name of a file. -/
def freshToken : IO Text := do
  return (← IO.getRandomBytes 8).toList.flatMap fun b => hex 2 b.toNat

/-- What opening a scratch directory depends on. -/
def surroundingsFor (ws : List Text) : IO Scratch.Surroundings := do
  let cwd := Path.Posix.ofText (← IO.currentDir).toString.toList
  let system := (← variableOf "TMPDIR").getD "/tmp"
  let named ← variableOf "KLSURL_TEMP_DIR"
  let asked := (Command.directoryNamed? ws).toList ++ named.toList ++ [system]
  let parents ← (asked.flatMap (Scratch.stations cwd)).filterM isDirectory
  let environment ← (asked.flatMap Scratch.variableNames).filterMapM fun name => do
    return (← variableOf name).map fun v => (name, v)
  return ⟨parents, system, named, environment, cwd, ← freshName 8⟩

/-- Makes a scratch directory and its files, for the owner alone. -/
def leave (d : Scratch.Directory) : IO Unit := do
  let root := String.ofList d.path
  IO.FS.createDirAll root
  IO.setAccessRights root ⟨⟨true, true, true⟩, ⟨false, false, false⟩, ⟨false, false, false⟩⟩
  for f in d.files.getD [] do
    IO.FS.writeBinFile (String.ofList (d.path ++ '/' :: f.name)) ⟨f.data.toArray⟩

/-- Carries an outcome out, and tells the code to exit with. -/
def conclude (o : Command.Outcome) : IO UInt32 := do
  o.left.forM leave
  (← IO.getStdout).putStr (String.ofList o.output)
  (← IO.getStderr).putStr (String.ofList o.errors)
  match o.ending with
  | .finished code | .dismissed code => return code.toUInt32
  | .broken why =>
    (← IO.getStderr).putStr (String.ofList (why.message ++ ['\n']))
    return 1

end EntryRef

/-- Runs the command line. -/
def main (args : List String) : IO UInt32 := do
  let ws := args.map String.toList
  let files ← EntryRef.filesFor ws
  let surroundings ← EntryRef.surroundingsFor ws
  let tokens ← (List.replicate 4 ()).mapM fun _ => EntryRef.freshToken
  -- no library for further methods of compression is at hand
  let opener := EntryRef.Zip.opener EntryRef.Zip.Tools.none files
  EntryRef.conclude (EntryRef.Command.run ⟨opener, surroundings, tokens⟩ ws)
