import DeadCode.Clean
import DeadCode.Console

/-!
The command line: reading its words, and what the commands print and return. `clean` prints an error and returns 1 where
it fails, but for the errors that it does not answer and for texts that cannot be printed: there it crashes.
-/

namespace DeadCode

inductive UsageError where
  | unknownOption (name : String)
  | missingValue (name : String)
  | unexpectedValue (name : String)
  | missingInput
  | extraArgument (text : String)
  | unknownCommand (name : String)
  | missingCommand
  deriving DecidableEq

def UsageError.message : UsageError → String
  | .unknownOption name => "No such option: " ++ name
  | .missingValue name => "Option " ++ Text.quoted name ++ " requires an argument."
  | .unexpectedValue name => "Option " ++ Text.quoted name ++ " does not take a value."
  | .missingInput => "Missing argument."
  | .extraArgument text => "Got unexpected extra argument (" ++ text ++ ")"
  | .unknownCommand name => "No such command " ++ Text.quoted name ++ "."
  | .missingCommand => "Missing command."

structure CleanCommand where
  input : String
  output : Option String := none
  noFormat : Bool := false
  untilStable : Bool := false
  dryRun : Bool := false
  verbose : Bool := false
  deriving DecidableEq

inductive Command where
  | clean (c : CleanCommand)
  | version
  deriving DecidableEq

namespace Command

/-- What has been read of a `clean` command; `inputs` holds its plain words. -/
structure Draft where
  inputs : List String := []
  output : Option String := none
  noFormat : Bool := false
  untilStable : Bool := false
  dryRun : Bool := false
  verbose : Bool := false

def Draft.setFlag (d : Draft) : String → Option Draft
  | "--no-format" => some { d with noFormat := true }
  | "--until-stable" => some { d with untilStable := true }
  | "--dry-run" => some { d with dryRun := true }
  | "--verbose" => some { d with verbose := true }
  | _ => none

/-- A word of grouped short options: the draft, and whether the next word is the output. -/
def Draft.setShort (d : Draft) : List Char → Except UsageError (Draft × Bool)
  | [] => .ok (d, false)
  | 'v' :: rest => { d with verbose := true }.setShort rest
  | 'o' :: rest =>
    if rest.isEmpty then .ok (d, true) else .ok ({ d with output := some (String.ofList rest) }, false)
  | c :: _ => .error (.unknownOption (String.ofList ['-', c]))

/-- A long option, with its value where the word holds one. -/
def Draft.setLong (d : Draft) (word : String) : Except UsageError (Draft × Bool) :=
  let cs := word.toList
  let name := String.ofList (cs.takeWhile (· ≠ '='))
  match cs.dropWhile (· ≠ '=') with
  | [] =>
    if name = "--output" then .ok (d, true)
    else
      match d.setFlag name with
      | some d => .ok (d, false)
      | none => .error (.unknownOption name)
  | _ :: value =>
    if name = "--output" then .ok ({ d with output := some (String.ofList value) }, false)
    else if (d.setFlag name).isSome then .error (.unexpectedValue name)
    else .error (.unknownOption name)

/-- Options and plain words in any order; `--` ends the options. -/
def readClean (d : Draft) : List String → Except UsageError Draft
  | [] => .ok d
  | word :: rest =>
    let take (r : Except UsageError (Draft × Bool)) : Except UsageError Draft :=
      match r, rest with
      | .error e, _ => .error e
      | .ok (d, false), rest => readClean d rest
      | .ok (d, true), value :: rest => readClean { d with output := some value } rest
      | .ok (_, true), [] => .error (.missingValue word)
    if word = "--" then .ok { d with inputs := d.inputs ++ rest }
    else
      match word.toList with
      | '-' :: '-' :: _ => take (d.setLong word)
      | '-' :: c :: cs => take (d.setShort (c :: cs))
      | _ => readClean { d with inputs := d.inputs ++ [word] } rest

def Draft.finish (d : Draft) : Except UsageError Command :=
  match d.inputs with
  | [] => .error .missingInput
  | [input] =>
    .ok (.clean { input, output := d.output, noFormat := d.noFormat, untilStable := d.untilStable
                  dryRun := d.dryRun, verbose := d.verbose })
  | _ :: extra :: _ => .error (.extraArgument extra)

def ofWords : List String → Except UsageError Command
  | [] => .error .missingCommand
  | "clean" :: words => do (← readClean {} words).finish
  | "version" :: words =>
    match words with
    | [] => .ok .version
    | extra :: _ => .error (.extraArgument extra)
  | other :: _ => .error (.unknownCommand other)

end Command

/-- Why a command comes to no exit code of its own. -/
inductive Crash where
  | uncaught (e : Failure)
  | unprintable
  deriving DecidableEq

inductive Ending where
  | exited (code : Nat)
  | crashed (c : Crash)
  deriving DecidableEq

/-- How a command ends and what it has printed. -/
structure Answer where
  ending : Ending
  output : String
  deriving DecidableEq

/-- Prints the items and exits. -/
def Display.answer (d : Display) (code : Nat) (items : List Console.Item) : Answer :=
  match d.printAll items with
  | (output, true) => ⟨.exited code, output⟩
  | (output, false) => ⟨.crashed .unprintable, output⟩

namespace CleanCommand

def options (c : CleanCommand) : CleanOptions where
  format := if c.noFormat then some false else none
  untilStable := if c.untilStable then some true else none

def inputPath (c : CleanCommand) : Path := .ofString c.input

def action (c : CleanCommand) : Action CleanedFile := do
  Action.configure
  cleanFile c.inputPath (c.output.map Path.ofString) c.options c.dryRun

/-- What is printed about a file that was cleaned. -/
def success (c : CleanCommand) (d : Display) (r : CleanedFile) : List Console.Item :=
  let passes := r.report.passes
  let plural := if passes = 1 then "" else "es"
  let path := d.escape r.path.text
  r.report.items d.escape c.verbose ++
    [.line s!"[dim]{passes} pass{plural}[/dim]",
     .line (if c.dryRun then "[yellow]Dry run:[/yellow] would write " ++ path
       else "[green]✓ Wrote " ++ path ++ "[/green]")]

/-- The world after the command, and its answer. Whether there is a file is asked before anything is tried, and an error
of that question is not answered. -/
def run (c : CleanCommand) (d : Display) (w : World) : Answer × World :=
  match w.files.isFile c.inputPath with
  | .error e => (⟨.crashed (.uncaught (.file e)), ""⟩, w)
  | .ok false => (d.answer 1 [.error ("Input file does not exist: " ++ d.escape c.inputPath.text)], w)
  | .ok true =>
    match c.action w with
    | .ok r w => (d.answer 0 (c.success d r), w)
    | .error e w =>
      if e.isAnswered then (d.answer 1 [.error (d.escape e.message)], w)
      else (⟨.crashed (.uncaught e), ""⟩, w)

end CleanCommand

namespace Command

def versionText : String := "1.0.0"

def run (c : Command) (d : Display) (w : World) : Answer × World :=
  match c with
  | .clean c => c.run d w
  | .version => (d.answer 0 [.line ("jsclean " ++ versionText)], w)

end Command
end DeadCode
