import DeadCode.Workspace

/-!
Dangling assignments: statements `name = number;` on a name that nothing declares and nothing reads. The
collector sees every assignment and every name once. A read of a name ends its candidacy for good; a
later assignment to the name replaces an earlier one as the candidate.
-/

namespace DeadCode

structure Collector where
  candidates : Table String NodeId := {}
  read : List String := []
  deriving DecidableEq, Inhabited

namespace Tree

/-- The name assigned by a statement of its own of the form `name = number` to an unbound name. -/
def danglingName? (t : Tree) (a : Analysis) (s : ScopeId) (n : NodeId) : Option String := do
  let p ← t.parent n
  guard (t.kind p = .expressionStatement)
  let operator ← (t.children n).find? fun c => !(t.node c).named
  guard (t.text operator = "=")
  let left ← t.child? n .left
  let right ← t.child? n .right
  guard (t.kind left = .identifier ∧ t.kind right = .number)
  guard (!a.bound s (t.text left))
  return t.text left

/-- Whether a name is only written where it stands. -/
def isAssignmentTarget (t : Tree) (n : NodeId) : Bool :=
  match t.parent n with
  | none => false
  | some p => t.kind p = .assignmentExpression && (t.node n).field = some .left

end Tree

namespace Collector

def register (c : Collector) (name : String) (n : NodeId) : Collector :=
  { c with candidates := c.candidates.insert name n }

def cancel (c : Collector) (name : String) : Collector :=
  { c with candidates := c.candidates.erase name }

def drained (c : Collector) : Collector := { c with candidates := {} }

def acceptsAssignment (c : Collector) (t : Tree) (a : Analysis) (s : ScopeId) (n : NodeId) : Option String :=
  (t.danglingName? a s n).filter fun name => !c.read.contains name

def visitAssignment (c : Collector) (t : Tree) (a : Analysis) (s : ScopeId) (n : NodeId) : Collector :=
  match c.acceptsAssignment t a s n with
  | none => c
  | some name => c.register name n

def visitName (c : Collector) (t : Tree) (n : NodeId) : Collector :=
  if t.isAssignmentTarget n then c
  else { c with read := t.text n :: c.read }.cancel (t.text n)

end Collector

namespace Job

/-- Removes the statement of one candidate, unless it left the tree with something around it. -/
def removeCandidate (name : String) (n : NodeId) : Job Bool := do
  let t := (← get).tree
  match t.parent n with
  | none => return false
  | some statement =>
    if !t.contains statement then return false
    if ← removeStatement statement then
      modify (·.record name .assignment statement)
      return true
    else return false

/-- Removes the statements of all candidates and counts them. -/
def removeCandidates (c : Collector) : Job Nat :=
  c.candidates.entries.foldlM (fun removed e => do
    return if ← removeCandidate e.1 e.2 then removed + 1 else removed) 0

end Job
end DeadCode
