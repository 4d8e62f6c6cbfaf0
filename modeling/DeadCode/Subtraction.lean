import DeadCode.Scope

/-!
Keeping an analysis current when a subtree leaves the tree: what its nodes contributed is taken out of
the tables. An analysis that was stale before stays as it is, since the next query crawls anyway.
-/

namespace DeadCode.Analysis

/-- `n` no longer counts towards a binding. -/
def unreference (n : NodeId) (a : Analysis) (b : BindingId) : Analysis :=
  let a := a.modifyBinding b fun d => { d with references := d.references.erase n }
  if (a.binding b).referenced then a
  else a.modifyScope (a.binding b).scope fun s => { s with revision := s.revision + 1 }

def dropReferences (a : Analysis) (n : NodeId) : Analysis :=
  ((a.resolved.get? n).getD []).foldl (unreference n) { a with resolved := a.resolved.erase n }

def dropDeclaration (a : Analysis) (n : NodeId) : Analysis :=
  match a.declared.get? n with
  | none => a
  | some b =>
    let a := { a with declared := a.declared.erase n }
    let d := a.binding b
    if a.own? d.scope d.name = some b then
      a.modifyScope d.scope fun s => { s with names := s.names.erase d.name }
    else a

def dropScope (a : Analysis) (n : NodeId) : Analysis :=
  match a.scopeOf.get? n with
  | none => a
  | some s =>
    let a := { a with scopeOf := a.scopeOf.erase n }
    match (a.scope s).parent with
    | none => a
    | some p => a.modifyScope p fun sc => { sc with children := sc.children.erase s }

def dropNode (a : Analysis) (n : NodeId) : Analysis :=
  ((a.dropReferences n).dropDeclaration n).dropScope n

/-- `t` is the tree after the subtree of `removed` was taken out of it. -/
def subtract (a : Analysis) (t : Tree) (removed : NodeId) : Analysis :=
  if a.version.map (· + 1) = some t.version then
    { (t.walkFrom removed).foldl dropNode a with version := some t.version }
  else a

end DeadCode.Analysis
