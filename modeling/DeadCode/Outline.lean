import DeadCode.Kind
import DeadCode.Field

/-!
The outline of a program: the parser's answer, a tree of kinds and byte ranges over the source.
-/

namespace DeadCode

/-- `hasError` says that a syntax error lies at or below the node. -/
structure Outline.Head where
  kind : Kind
  start : Nat
  stop : Nat
  named : Bool := true
  missing : Bool := false
  erroneous : Bool := false
  hasError : Bool := false
  field : Option Field := none
  deriving DecidableEq, Inhabited

inductive Outline where
  | node (head : Outline.Head) (children : List Outline)
  deriving Inhabited

namespace Outline

def head : Outline → Head
  | node h _ => h

def children : Outline → List Outline
  | node _ cs => cs

mutual

/-- Number of nodes. -/
def size : Outline → Nat
  | node _ cs => 1 + sizeAll cs

def sizeAll : List Outline → Nat
  | [] => 0
  | c :: cs => c.size + sizeAll cs

end

mutual

/-- All nodes in pre-order. -/
def heads : Outline → List Head
  | node h cs => h :: headsAll cs

def headsAll : List Outline → List Head
  | [] => []
  | c :: cs => c.heads ++ headsAll cs

end

/-- Row and column of a byte offset, both from one, the column in bytes. -/
def position (source : ByteArray) (offset : Nat) : Nat × Nat :=
  (source.extract 0 offset).foldl
    (fun (row, column) b => if b == 10 then (row + 1, 1) else (row, column + 1)) (1, 1)

end Outline
end DeadCode
