import DeadCode.Decimal.Shortest
import DeadCode.FileSystem
import DeadCode.Text.Blank
import DeadCode.Text.Lines
import DeadCode.Text.Utf8
import DeadCode.Text.Words

/-!
The external formatter. It is an outside program: a command line, a text to read and a limit of time go in,
an `Outcome` comes back. Its options are fixed to one house style. `Process.outcome` is what a system answers that
starts the program and waits for it.
-/

namespace DeadCode

/-- The limit set by default is a whole number of seconds; one that was read is not. -/
inductive Timeout where
  | whole (seconds : Nat)
  | measured (seconds : Double)
  deriving DecidableEq, Inhabited

def Timeout.text : Timeout → String
  | .whole seconds => toString seconds
  | .measured seconds => seconds.text

/-- Why a system cannot wait as long as a limit says. -/
inductive LimitFault where
  | notNumber | infinite | tooLong
  deriving DecidableEq

def LimitFault.message : LimitFault → String
  | .notNumber => "cannot convert float NaN to integer"
  | .infinite => "cannot convert float infinity to integer"
  | .tooLong => "timeout is too large"

/-- The longest time that can be waited for, in milliseconds. -/
def Timeout.longest : Nat := 2147483647

/-- A limit must be a number, and its milliseconds must fit. That the wait starts a moment after the clock is
left out. -/
def Timeout.fault? : Timeout → Option LimitFault
  | .whole seconds => if longest < 1000 * seconds then some .tooLong else none
  | .measured .nan => some .notNumber
  | .measured (.infinite negative) => if negative then none else some .infinite
  | .measured (.finite negative mantissa exponent) =>
    let (milliseconds, unit) := Double.inUnits (1000 * mantissa) 1 (-exponent)
    if !negative && longest * unit < milliseconds then some .tooLong else none

structure Formatter where
  command : List String
  timeout : Timeout := .whole 60
  deriving DecidableEq, Inhabited

namespace Formatter

structure Run where
  command : List String
  input : String
  timeout : Timeout
  deriving DecidableEq

/-- What comes of a run: the program cannot be started, or its end is not waited for, or what it wrote is no
text, or it ends. -/
inductive Outcome where
  | notFound
  | refused (cause : Refusal)
  | unwaited (fault : LimitFault)
  | timedOut
  | undecodable (fault : Text.Utf8.Fault)
  | exited (code : Int) (output errors : String)
  deriving DecidableEq, Inhabited

/-- The program behind a command line, as a system finds it. -/
inductive Process where
  | missing
  | refused (cause : Refusal)
  | endless
  | ended (code : Int) (output errors : ByteArray)

namespace Process

def text (bytes : ByteArray) : Except Text.Utf8.Fault String :=
  (Text.Utf8.decode bytes).map fun s => String.ofList (Text.unifyNewlines s.toList)

/-- Starts the program and waits for it as long as the limit says. -/
def outcome (p : Process) (r : Run) : Outcome :=
  match p with
  | .missing => .notFound
  | .refused cause => .refused cause
  | .endless =>
    match r.timeout.fault? with
    | some fault => .unwaited fault
    | none => .timedOut
  | .ended code output errors =>
    match r.timeout.fault? with
    | some fault => .unwaited fault
    | none =>
      match text output, text errors with
      | .ok output, .ok errors => .exited code output errors
      | .error fault, _ => .undecodable fault
      | .ok _, .error fault => .undecodable fault

end Process

inductive Failure where
  | notFound (program : String)
  | refused (e : FileError)
  | limit (fault : LimitFault)
  | timedOut (time : Timeout)
  | undecodable (fault : Text.Utf8.Fault)
  | exited (code : Int) (detail : String)
  deriving DecidableEq

def Failure.message : Failure → String
  | .notFound program => "formatter not found: " ++ program
  | .refused e => e.message
  | .limit fault => fault.message
  | .timedOut time => "formatter timed out after " ++ time.text ++ "s"
  | .undecodable fault => fault.message
  | .exited code detail => s!"formatter exited with code {code}: {detail}"

def ofCommand (command : String) (timeout : Timeout := .whole 60) : Except Text.WordsError Formatter :=
  (Text.words command).map fun command => { command, timeout }

def parserFor (path : Path) : String :=
  if [".ts", ".mts", ".cts", ".tsx"].contains (Text.lower path.suffix) then "typescript" else "babel"

def commandFor (f : Formatter) (path : Path) : List String :=
  f.command ++ ["--parser", parserFor path, "--single-quote", "--trailing-comma", "none"]

def runFor (f : Formatter) (source : String) (path : Path) : Run :=
  { command := f.commandFor path, input := source, timeout := f.timeout }

/-- The formatted text. What a failed run says is its errors, or its output if there are none. -/
def result (r : Run) : Outcome → Except Failure String
  | .notFound => .error (.notFound (r.command.headD ""))
  | .refused cause => .error (.refused (.refused cause (r.command.headD "")))
  | .unwaited fault => .error (.limit fault)
  | .timedOut => .error (.timedOut r.timeout)
  | .undecodable fault => .error (.undecodable fault)
  | .exited code output errors =>
    if code = 0 then .ok output
    else .error (.exited code (Text.strip (if errors.isEmpty then output else errors)))

end Formatter
end DeadCode
