import DeadCode.Path
import DeadCode.Table

/-!
A file system. A path leads name by name from the root or the working directory to a place, through directories
that may be passed. Reading and writing either succeed or change nothing. The system can refuse any access to
any place, for want of rights or space or because of a fault.
-/

namespace DeadCode

/-- Why the system refuses an access: a number and its text. -/
structure Refusal where
  code : Nat
  text : String
  deriving DecidableEq

namespace Refusal

def notFound : Refusal := ⟨2, "No such file or directory"⟩
def denied : Refusal := ⟨13, "Permission denied"⟩
def notDirectory : Refusal := ⟨20, "Not a directory"⟩
def isDirectory : Refusal := ⟨21, "Is a directory"⟩
def nameTooLong : Refusal := ⟨36, "File name too long"⟩

end Refusal

inductive FileError where
  | refused (cause : Refusal) (path : String)
  | nullCharacter
  deriving DecidableEq

namespace FileError

def message : FileError → String
  | .refused cause path => s!"[Errno {cause.code}] {cause.text}: " ++ Text.quoted path
  | .nullCharacter => "embedded null byte"

/-- Errors that say that there is nothing where a path leads. -/
def isAbsence : FileError → Bool
  | .refused cause _ => [2, 9, 20, 40].contains cause.code
  | .nullCharacter => true

end FileError

inductive Access where
  | pass | inspect | read | write
  deriving DecidableEq

/-- A place by the names that lead to it from the root. -/
abbrev Place := List String

/-- Files and further directories by their places, and what the system refuses for reasons of its own. -/
structure FileSystem where
  files : Table Place ByteArray := {}
  directories : List Place := []
  /-- The working directory. -/
  here : Place := []
  refusal? : Access → Place → Option Refusal := fun _ _ => none
  deriving Inhabited

namespace FileSystem

def isDirectory (fs : FileSystem) (place : Place) : Bool :=
  place.isPrefixOf fs.here || (fs.directories.any fun d => place.isPrefixOf d) ||
    fs.files.keys.any fun f => place.isPrefixOf f && f != place

/-- The longest path and the longest name, in bytes. -/
def pathLimit : Nat := 4095
def nameLimit : Nat := 255

/-- The names that lead from the start of a path to its place. -/
def steps (p : Path) : List String :=
  (p.parts.flatMap fun part => (Path.splitSlashes part.toList).map String.ofList).filter (· ≠ "")

def start (fs : FileSystem) (p : Path) : Place := if p.root.isEmpty then fs.here else []

/-- One name further. -/
def step (place : Place) (name : String) : Place :=
  if name = "." then place else if name = ".." then place.dropLast else place ++ [name]

/-- One name further, if the place passed through is a directory that may be passed. -/
def enter (fs : FileSystem) (text : String) (place : Place) (name : String) : Except FileError Place :=
  if fs.isDirectory place then
    match fs.refusal? .pass place with
    | some cause => .error (.refused cause text)
    | none => if nameLimit < name.utf8ByteSize then .error (.refused .nameTooLong text) else .ok (step place name)
  else if (fs.files.get? place).isSome then .error (.refused .notDirectory text)
  else .error (.refused .notFound text)

/-- Where a path leads. -/
def locate (fs : FileSystem) (p : Path) : Except FileError Place :=
  if p.text.toList.contains '\x00' then .error .nullCharacter
  else if pathLimit < p.text.utf8ByteSize then .error (.refused .nameTooLong p.text)
  else (steps p).foldlM (fs.enter p.text) (fs.start p)

/-- Asks for an access to a place that the path has led to. -/
def ask (fs : FileSystem) (access : Access) (p : Path) (place : Place) : Except FileError Unit :=
  match fs.refusal? access place with
  | some cause => .error (.refused cause p.text)
  | none => .ok ()

def read (fs : FileSystem) (p : Path) : Except FileError ByteArray := do
  let place ← fs.locate p
  if fs.isDirectory place then
    fs.ask .read p place
    throw (.refused .isDirectory p.text)
  else
    match fs.files.get? place with
    | none => throw (.refused .notFound p.text)
    | some bytes =>
      fs.ask .read p place
      return bytes

def write (fs : FileSystem) (p : Path) (bytes : ByteArray) : Except FileError FileSystem := do
  let place ← fs.locate p
  if fs.isDirectory place then throw (.refused .isDirectory p.text)
  else
    fs.ask .write p place
    return { fs with files := fs.files.insert place bytes }

/-- Whether what a path leads to is a file, not a directory. -/
def inspect (fs : FileSystem) (p : Path) : Except FileError Bool := do
  let place ← fs.locate p
  if fs.isDirectory place then
    fs.ask .inspect p place
    return false
  else
    match fs.files.get? place with
    | none => throw (.refused .notFound p.text)
    | some _ =>
      fs.ask .inspect p place
      return true

/-- Whether a path leads to a file. Where nothing is, there is none; but the system may refuse to say. -/
def isFile (fs : FileSystem) (p : Path) : Except FileError Bool :=
  match fs.inspect p with
  | .ok b => .ok b
  | .error e => if e.isAbsence then .ok false else .error e

end FileSystem
end DeadCode
