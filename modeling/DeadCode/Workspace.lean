import DeadCode.Crawl
import DeadCode.Report
import DeadCode.Subtraction
import DeadCode.Surgery

/-!
The workspace: the tree under edit with all that follows it. Followers are told of every subtree taken
out, in the order in which they joined: an analysis subtracts it, the recorder notes it. A job on the
workspace that fails keeps what it did before.
-/

namespace DeadCode

abbrev AnalysisId := Nat

inductive Follower where
  | recorder
  | analysis (id : AnalysisId)
  deriving DecidableEq

structure Workspace where
  tree : Tree
  followers : List Follower := []
  analyses : Array Analysis := #[]
  heard : List NodeId := []
  report : Report := {}
  deriving Inhabited

namespace Workspace

def analysis (w : Workspace) (id : AnalysisId) : Analysis := w.analyses.getD id default

def setAnalysis (w : Workspace) (id : AnalysisId) (a : Analysis) : Workspace :=
  { w with analyses := w.analyses.modify id fun _ => a }

def join (w : Workspace) (f : Follower) : Workspace := { w with followers := w.followers ++ [f] }

def leave (w : Workspace) (f : Follower) : Workspace := { w with followers := w.followers.erase f }

/-- Starts an analysis that follows the tree; it has not crawled yet. -/
def startAnalysis (w : Workspace) : AnalysisId × Workspace :=
  let id := w.analyses.size
  (id, { w with analyses := w.analyses.push {} }.join (.analysis id))

def tell (removed : NodeId) (w : Workspace) : Follower → Workspace
  | .recorder => { w with heard := w.heard ++ [removed] }
  | .analysis id => w.setAnalysis id ((w.analysis id).subtract w.tree removed)

/-- Takes over a tree from which `removed` was just taken out. -/
def settle (w : Workspace) (t : Tree) (removed : NodeId) : Workspace :=
  w.followers.foldl (tell removed) { w with tree := t }

/-- Counts a mutation; with a removed subtree the followers are told of it. -/
def touch (w : Workspace) : Option NodeId → Workspace
  | none => { w with tree := w.tree.touch }
  | some removed => w.settle w.tree.touch removed

/-- Brings an analysis up to date by a crawl if it is stale. -/
def refresh (w : Workspace) (id : AnalysisId) : Workspace :=
  let a := w.analysis id
  if a.stale w.tree then w.setAnalysis id (a.crawl w.tree) else w

def record (w : Workspace) (name : String) (what : Removed) (n : NodeId) : Workspace :=
  { w with report := w.report.record ⟨name, what, (w.tree.node n).line⟩ }

end Workspace

abbrev Job := EStateM SurgeryError Workspace

namespace Job

/-- The scope of a node in a current analysis. -/
def scopeFor (id : AnalysisId) (n : NodeId) : Job ScopeId := do
  modify (·.refresh id)
  let w ← get
  return (w.analysis id).enclosing w.tree n

def detach (n : NodeId) : Job NodeId := do
  match (← get).tree.detach n with
  | .error e => throw e
  | .ok t => modify (·.settle t n); return n

def replace (old new : NodeId) : Job NodeId := do
  match (← get).tree.replace old new with
  | .error e => throw e
  | .ok t => modify (·.settle t old); return new

/-- Whether the statement was removed. -/
def removeStatement (n : NodeId) : Job Bool := do
  match (← get).tree.removeStatement n with
  | .error e => throw e
  | .ok none => return false
  | .ok (some t) => modify (·.settle t n); return true

/-- Removes a specifier or declarator from its list. A default import that leaves its clause empty takes
the clause and the word `from` with it. -/
def removeListMember (n : NodeId) : Job NodeId := do
  let container := (← get).tree.parent n
  let _ ← detach n
  if let some c := container then
    let t := (← get).tree
    if t.kind c = .importClause ∧ t.namedChildren c = [] then
      let statement := t.parent c
      let _ ← detach c
      if let some s := statement then
        let t := (← get).tree
        if let some word := (t.children s).find? fun k => t.kind k = .fromWord then
          let _ ← detach word
  return n

end Job
end DeadCode
