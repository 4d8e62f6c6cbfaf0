import DeadCode.Dangling
import DeadCode.Reduction

/-!
The elimination engine. One pass is a single walk in pre-order over the tree that it edits: on entering a
node its scope is reduced, then assignments and names go to the collector. Dangling assignments are
removed after the walk. A run repeats passes until one removes nothing, if asked to.
-/

namespace DeadCode

structure Pass where
  settled : Settled := {}
  collector : Collector := {}
  deriving Inhabited

namespace Job

/-- Reduces the scope of a node. -/
def enter (id : AnalysisId) (n : NodeId) (p : Pass) : Job Pass := do
  let s ← scopeFor id n
  let (_, settled) ← reduce id s p.settled
  return { p with settled }

/-- Shows a node to the collector. -/
def collect (id : AnalysisId) (n : NodeId) (p : Pass) : Job Pass := do
  let t := (← get).tree
  if t.kind n = .assignmentExpression then
    let s ← scopeFor id n
    let w ← get
    return { p with collector := p.collector.visitAssignment w.tree (w.analysis id) s n }
  else if (t.kind n).spellsName then
    return { p with collector := p.collector.visitName t n }
  else return p

/-- Visits a subtree with a state of its own kind: `enter` may edit the tree around the node, `collect` looks
at a node that stayed. A node that has left the tree is passed over; its children are those it has once its
own visit is done. -/
def traverse {σ : Type} (enter collect : NodeId → σ → Job σ) : Nat → σ → NodeId → Job σ
  | 0, s, _ => return s
  | fuel + 1, s, n => do
    if !(← get).tree.contains n then return s
    let s ← enter n s
    if !(← get).tree.contains n then return s
    let s ← collect n s
    ((← get).tree.children n).foldlM (traverse enter collect fuel) s

/-- Runs a job on an analysis of its own, which stops following the tree whatever comes out. -/
def withAnalysis {α : Type} (job : AnalysisId → Job α) : Job α := fun w =>
  let (id, w) := w.startAnalysis
  match job id w with
  | .ok a w => .ok a (w.leave (.analysis id))
  | .error e w => .error e (w.leave (.analysis id))

/-- One pass; counts the constructs it removed. -/
def runPass : Job Nat := do
  let before := (← get).report.total
  let p ← withAnalysis fun id => do
    let t := (← get).tree
    traverse (enter id) (collect id) (t.size + 1) {} t.root
  let _ ← removeCandidates p.collector
  modify fun w => { w with report := { w.report with passes := w.report.passes + 1 } }
  return (← get).report.total - before

def runPasses : Nat → Job Unit
  | 0 => return ()
  | fuel + 1 => do
    if (← runPass) = 0 then return ()
    runPasses fuel

end Job

/-- `maxPasses` bounds a run that goes on until it is stable; any other run is one pass. -/
structure Engine where
  untilStable : Bool := false
  maxPasses : Int := 10
  maxPasses_pos : 1 ≤ maxPasses := by decide

namespace Engine

structure PassLimitError where
  given : Int
  deriving DecidableEq

def PassLimitError.message (e : PassLimitError) : String :=
  s!"max_passes must be at least 1, got {e.given}"

def make (untilStable : Bool) (maxPasses : Int) : Except PassLimitError Engine :=
  if h : 1 ≤ maxPasses then .ok ⟨untilStable, maxPasses, h⟩ else .error ⟨maxPasses⟩

/-- Every pass but the last takes a node out of a child list for good, so no run needs more passes than
there are nodes and one more. -/
def passLimit (e : Engine) (t : Tree) : Nat :=
  if e.untilStable then min e.maxPasses.toNat (t.size + 1) else 1

/-- Edits the tree of the workspace and reports what this run removed. -/
def run (e : Engine) : Job Report := do
  modify ({ · with report := {} })
  Job.runPasses (e.passLimit (← get).tree)
  return (← get).report

end Engine
end DeadCode
