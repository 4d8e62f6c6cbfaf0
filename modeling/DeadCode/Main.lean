import DeadCode.CommandLine
import DeadCode.Outline.Listing

/-!
The program. Standard input holds the parser's listing of the input file, one node a line; no formatter is
at hand, so a run that asks for one ends in its error.
-/

namespace DeadCode.Program

def settingNames : List String :=
  ["JSCLEAN_OUTPUT_SUFFIX", "JSCLEAN_FORMAT", "JSCLEAN_PRETTIER_CMD", "JSCLEAN_FORMAT_TIMEOUT",
   "JSCLEAN_UNTIL_STABLE", "JSCLEAN_MAX_PASSES", "JSCLEAN_GRAMMAR"]

def readEnvironment : IO Environment := do
  let entries ← settingNames.filterMapM fun name => do
    return (← IO.getEnv name).map fun value => (name, value)
  return ⟨entries⟩

def readEnvFile : IO (Except EnvFile.Unreadable (Option String)) := do
  try
    let bytes ← IO.FS.readBinFile ".env"
    return match Text.Utf8.decode bytes with
      | .ok text => .ok (some text)
      | .error fault => .error (.undecodable fault)
  catch _ => return .ok none

/-- Where a path leads if all directories on its way are there. -/
def placeOf (fs : FileSystem) (p : Path) : Place := (FileSystem.steps p).foldl FileSystem.step (fs.start p)

def absolute (place : Place) : String := "/" ++ "/".intercalate place

/-- The input file, and the directories of the input and the output that exist. -/
def readFiles (c : CleanCommand) : IO FileSystem := do
  let empty : FileSystem := { here := (Path.ofString (← IO.currentDir).toString).parts }
  let output := (c.output.map Path.ofString).getD c.inputPath
  let parents := [c.inputPath, output].map fun p => (placeOf empty p).dropLast
  let directories ← parents.filterM fun place => do
    try
      let _ ← IO.FS.Handle.mk (absolute place ++ "/.") .read
      return true
    catch _ => return false
  try
    let input := placeOf empty c.inputPath
    let bytes ← IO.FS.readBinFile (absolute input)
    return { empty with files := ⟨[(input, bytes)]⟩, directories }
  catch _ => return { empty with directories }

def readOutline : IO Outline := do
  let text ← (← IO.getStdin).readToEnd
  let items := (text.splitOn "\n").filterMap fun line => Outline.Head.ofFields (line.splitOn "\t")
  return (Outline.ofListing items).headD default

def exitCode : Ending → UInt32
  | .exited code => code.toUInt32
  | .crashed _ => 1

def tell (a : Answer) : IO UInt32 := do
  (← IO.getStdout).putStr a.output
  if let .crashed (.uncaught e) := a.ending then (← IO.getStderr).putStrLn e.message
  return exitCode a.ending

def runClean (c : CleanCommand) : IO UInt32 := do
  let before : World :=
    { environment := ← readEnvironment, envFile := ← readEnvFile, files := ← readFiles c
      outline := ← readOutline, formatted := fun _ => .notFound }
  let (answer, after) := c.run ({} : Terminal).display before
  for (place, bytes) in after.files.files.entries do
    if before.files.files.get? place != some bytes then
      IO.FS.writeBinFile (absolute place) bytes
  tell answer

def run (words : List String) : IO UInt32 := do
  match Command.ofWords words with
  | .ok (.clean c) => runClean c
  | .ok .version => tell (Command.version.run ({} : Terminal).display { outline := default }).1
  | .error e =>
    (← IO.getStderr).putStrLn e.message
    return 2

end DeadCode.Program

def main (args : List String) : IO UInt32 := DeadCode.Program.run args
