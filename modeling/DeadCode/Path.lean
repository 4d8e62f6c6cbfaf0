import DeadCode.Text.LowerCase
import DeadCode.Text.Quoted

/-!
File paths: a root of no, one or two slashes, and parts without empty or `.` parts among those read from a
text. `withName` replaces the last part.
-/

namespace DeadCode

structure Path where
  root : String := ""
  parts : List String := []
  deriving DecidableEq, Inhabited

inductive PathError where
  | emptyName (path : String)
  | invalidName (name : String)
  deriving DecidableEq

namespace Path

/-- The parts between slashes, empty ones included. -/
def splitSlashes : List Char → List (List Char)
  | [] => [[]]
  | c :: rest =>
    if c = '/' then [] :: splitSlashes rest
    else
      match splitSlashes rest with
      | [] => [[c]]
      | l :: ls => (c :: l) :: ls

/-- Exactly two leading slashes stay two; any other number counts as one. -/
def rootOf (cs : List Char) : String :=
  match (cs.takeWhile (· = '/')).length with
  | 0 => ""
  | 2 => "//"
  | _ => "/"

def partsOf (cs : List Char) : List String :=
  ((splitSlashes cs).filter fun p => p ≠ [] ∧ p ≠ ['.']).map String.ofList

def ofString (s : String) : Path := ⟨rootOf s.toList, partsOf s.toList⟩

def text (p : Path) : String :=
  let body := p.root ++ "/".intercalate p.parts
  if body.isEmpty then "." else body

def name (p : Path) : String := p.parts.getLastD ""

/-- The characters of a name behind its last dot, and those before it. -/
def splitAtLastDot (name : List Char) : Option (List Char × List Char) :=
  let tail := (name.reverse.takeWhile (· ≠ '.')).reverse
  let stem := (name.reverse.dropWhile (· ≠ '.')).reverse.dropLast
  if tail.isEmpty ∨ stem.isEmpty ∨ tail.length = name.length then none else some (stem, tail)

/-- From the last dot of the name, unless that is its first or its last character. -/
def suffix (p : Path) : String :=
  match splitAtLastDot p.name.toList with
  | some (_, tail) => String.ofList ('.' :: tail)
  | none => ""

def stem (p : Path) : String :=
  match splitAtLastDot p.name.toList with
  | some (stem, _) => String.ofList stem
  | none => p.name

/-- A name is valid if it reads as one part and neither starts nor ends with a slash. -/
def isValidName (name : String) : Bool :=
  let cs := name.toList
  cs.head? ≠ some '/' && cs.getLast? ≠ some '/' && (partsOf cs).length == 1

def withName (p : Path) (name : String) : Except PathError Path :=
  if p.name.isEmpty then .error (.emptyName p.text)
  else if isValidName name then .ok { p with parts := p.parts.dropLast ++ [name] }
  else .error (.invalidName name)

/-- The path read anew, without the slashes and dots that `withName` can leave in a name. -/
def normal (p : Path) : Path := { p with parts := p.parts.flatMap fun part => partsOf part.toList }

/-- The output path of an input: the suffix goes between stem and extension. -/
def derived (p : Path) (suffix : String) : Except PathError Path :=
  p.withName (p.stem ++ suffix ++ p.suffix)

end Path

def PathError.message : PathError → String
  | .emptyName path => "PosixPath(" ++ Text.quoted path ++ ") has an empty name"
  | .invalidName name => "Invalid name " ++ Text.quoted name

end DeadCode
