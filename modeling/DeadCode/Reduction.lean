import DeadCode.Workspace

/-!
Reduction of a scope: the declaring construct of every unreferenced binding is taken out. The list of
unreferenced bindings is drawn up when the reduction starts; a binding orphaned on the way is left to the
next reduction. A scope whose reduction found nothing is settled until one of its bindings loses its last
reference.
-/

namespace DeadCode

/-- A scope of one crawl of one analysis. -/
structure ScopeKey where
  analysis : AnalysisId
  crawl : Nat
  scope : ScopeId
  deriving DecidableEq

/-- The revision at which each settled scope was found to hold nothing to remove. -/
abbrev Settled := Table ScopeKey Nat

namespace Job

/-- A declarator stays as long as one name of its pattern is referenced; the last declarator takes the
declaration with it. -/
def removeDeclarator (id : AnalysisId) (b : Binding) : Job Bool := do
  let w ← get
  let a := w.analysis id
  let held := b.coDeclared.any fun name =>
    (a.own? b.scope name).any fun other =>
      (a.binding other).path == b.path && (a.binding other).referenced
  if held then return false
  match w.tree.parent b.path with
  | none => return false
  | some declaration =>
    let declarators := (w.tree.children declaration).filter fun c => w.tree.kind c = .variableDeclarator
    if declarators.length = 1 then
      if ← removeStatement declaration then
        modify (·.record b.name .declaration declaration)
        return true
      else return false
    else
      let _ ← removeListMember b.path
      modify (·.record b.name .declarator b.path)
      return true

def removeFunction (b : Binding) : Job Bool := do
  if ← removeStatement b.path then
    modify (·.record b.name .function b.path)
    return true
  else return false

/-- An emptied list of named imports stays in place. -/
def removeImport (b : Binding) : Job Bool := do
  let _ ← removeListMember b.path
  modify (·.record b.name .importName b.path)
  return true

/-- Removes the construct of one binding, unless it is gone already or of a sort that stays. -/
def removeBinding (id : AnalysisId) (b : Binding) : Job Bool := do
  if b.construct = .other then return false
  if !(← get).tree.contains b.path then return false
  match b.construct with
  | .declarator => removeDeclarator id b
  | .function => removeFunction b
  | .importSpecifier | .importDefault => removeImport b
  | .other => return false

/-- Removes what the unreferenced bindings of a scope declare and counts the constructs removed. -/
def reduceScope (id : AnalysisId) (s : ScopeId) : Job Nat := do
  let a := (← get).analysis id
  (a.unreferenced s).foldlM (fun removed b => do
    return if ← removeBinding id (a.binding b) then removed + 1 else removed) 0

/-- As `reduceScope`, with nothing done for a settled scope. -/
def reduce (id : AnalysisId) (s : ScopeId) (settled : Settled) : Job (Nat × Settled) := do
  let a := (← get).analysis id
  let key : ScopeKey := ⟨id, a.crawls, s⟩
  if settled.get? key = some (a.scope s).revision then return (0, settled)
  let removed ← reduceScope id s
  if removed = 0 then
    let revision := (((← get).analysis id).scope s).revision
    return (0, settled.insert key revision)
  return (removed, settled)

end Job
end DeadCode
