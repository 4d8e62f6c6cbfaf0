import DeadCode.Copy
import DeadCode.Engine
import DeadCode.FileSystem
import DeadCode.Formatter
import DeadCode.ParseError
import DeadCode.Settings
import DeadCode.Text.Lines

/-!
Cleaning one source text or one file: read, parse, eliminate, print, format, write. What lies outside the
program is data of the `World`: the environment, its file and how that is read, the file system, the outline that
the parser gives and the outcome of each run of the formatter. An action that fails keeps what it did before, and writes are
its last step.
-/

namespace DeadCode

inductive Failure where
  | settings (e : SettingsError)
  | grammar (e : UnknownGrammar)
  | parse (e : ParseError)
  | decode (fault : Text.Utf8.Fault)
  | passLimit (e : Engine.PassLimitError)
  | surgery (e : SurgeryError)
  | words (e : Text.WordsError)
  | formatter (e : Formatter.Failure)
  | path (e : PathError)
  | file (e : FileError)
  deriving DecidableEq

def Failure.message : Failure → String
  | .settings e => e.message
  | .grammar e => e.message
  | .parse e => e.message
  | .decode fault => fault.message
  | .passLimit e => e.message
  | .surgery e => e.message
  | .words e => e.message
  | .formatter e => e.message
  | .path e => e.message
  | .file e => e.message

/-- All errors are answered but one: a time limit that is infinite or too long to be waited for. -/
def Failure.isAnswered : Failure → Bool
  | .formatter (.limit fault) => fault = .notNumber
  | _ => true

/-- Why no text can be had of the environment's file. -/
inductive EnvFile.Unreadable where
  | refused (e : FileError)
  | undecodable (fault : Text.Utf8.Fault)
  deriving DecidableEq

def EnvFile.Unreadable.failure : EnvFile.Unreadable → Failure
  | .refused e => .file e
  | .undecodable fault => .decode fault

/-- `configured` says that the settings were loaded and found good. `grammars` and `runs` keep account of
the parsers made and the formatter runs tried. -/
structure World where
  environment : Environment := {}
  envFile : Except EnvFile.Unreadable (Option String) := .ok none
  readEnvFile : EnvFile.Reader := EnvFile.entries
  configured : Bool := false
  files : FileSystem := {}
  outline : Outline
  formatted : Formatter.Run → Formatter.Outcome := fun _ => .exited 0 "" ""
  grammars : List Grammar := []
  runs : List Formatter.Run := []
  deriving Inhabited

abbrev Action := EStateM Failure World

namespace Action

def lift {ε α : Type} (cause : ε → Failure) : Except ε α → Action α
  | .ok a => return a
  | .error e => throw (cause e)

/-- Loads the settings, once as long as they are good. -/
def configure : Action Unit := do
  let w ← get
  if w.configured then return ()
  let text ← lift EnvFile.Unreadable.failure w.envFile
  let (environment, outcome) := Settings.load w.readEnvFile text w.environment
  set { w with environment }
  lift .settings outcome
  modify ({ · with configured := true })

def setting {α : Type} (read : Environment → Except SettingsError α) : Action α := do
  lift .settings (read (← get).environment)

/-- A flag as it is given, else as it is set. -/
def flag (given : Option Bool) (read : Environment → Except SettingsError Bool) : Action Bool :=
  match given with
  | some b => return b
  | none => setting read

/-- Makes a parser. -/
def chooseGrammar (path : Path) (given : String) : Action Grammar := do
  let g ← lift .grammar (Grammar.choose path given)
  modify fun w => { w with grammars := w.grammars ++ [g] }
  return g

/-- The editable tree of a source text, or its first syntax error. -/
def parse (source : String) (path : Option String) : Action Tree := do
  let o := (← get).outline
  let bytes := source.toUTF8
  if let some e := o.parseError? bytes path then throw (.parse e)
  lift .decode (Tree.ofOutline o bytes path)

/-- The tree after elimination, and the report of it. -/
def eliminate (tree : Tree) (untilStable : Bool) : Action (Tree × Report) := do
  let maxPasses ← setting Settings.maxPasses
  let engine ← lift .passLimit (Engine.make untilStable maxPasses)
  match engine.run { tree } with
  | .ok report w => return (w.tree, report)
  | .error e _ => throw (.surgery e)

def format (text : String) (path : Path) : Action String := do
  let command := Settings.formatterCommand (← get).environment
  let timeout ← setting Settings.formatTimeout
  let f ← lift .words (Formatter.ofCommand command (.measured timeout))
  let run := f.runFor text path
  modify fun w => { w with runs := w.runs ++ [run] }
  lift .formatter (Formatter.result run ((← get).formatted run))

end Action

structure Cleaned where
  output : String
  report : Report
  deriving DecidableEq

/-- Options that override a setting; one that is absent leaves it as it is. -/
structure CleanOptions where
  format : Option Bool := none
  untilStable : Option Bool := none
  deriving DecidableEq

def endWithNewline (s : String) : String :=
  if s.toList.getLast? = some '\n' then s else s.push '\n'

/-- Cleans a source text; `path` chooses grammar and formatter and stands in messages. -/
def cleanSource (source path : String) (options : CleanOptions) : Action Cleaned := do
  Action.configure
  let format ← Action.flag options.format Settings.formatOutput
  let untilStable ← Action.flag options.untilStable Settings.untilStable
  let place := Path.ofString path
  let _ ← Action.chooseGrammar place (Settings.grammar (← get).environment)
  let tree ← Action.parse source (some path)
  let (tree, report) ← Action.eliminate tree untilStable
  let text := Text.stripBlankLines tree.render
  let output ← if format then Action.format text place else pure (endWithNewline text)
  return { output, report }

/-- The text of a file, its line ends unified. -/
def readSource (path : Path) : Action String := do
  let bytes ← Action.lift .file ((← get).files.read path)
  let text ← Action.lift .decode (Text.Utf8.decode bytes)
  return String.ofList (Text.unifyNewlines text.toList)

/-- Reads and parses a file with the grammar given or chosen by its extension. -/
def parseFile (path : Path) (grammar : String) : Action (Grammar × Tree) := do
  let g ← Action.chooseGrammar path grammar
  let source ← readSource path
  let tree ← Action.parse source (some path.text)
  return (g, tree)

structure CleanedFile extends Cleaned where
  path : Path
  written : Bool
  deriving DecidableEq

/-- Cleans one file and writes the result, next to it unless told where. -/
def cleanFile (input : Path) (output : Option Path) (options : CleanOptions) (dryRun : Bool) :
    Action CleanedFile := do
  Action.configure
  let input := input.normal
  let source ← readSource input
  let cleaned ← cleanSource source input.text options
  let path ← match output with
    | some path => pure path
    | none => Action.lift .path (input.derived (Settings.outputSuffix (← get).environment))
  let path := path.normal
  if dryRun then return { cleaned with path, written := false }
  let files ← Action.lift .file ((← get).files.write path cleaned.output.toUTF8)
  modify ({ · with files })
  return { cleaned with path, written := true }

end DeadCode
