import DeadCode.Declaration

/-!
The crawl: a full analysis of the current tree. It lays out the scopes, walks the visits in pre-order to
bind every declared name, and then resolves exports and uses up the chain of scopes. A second declaration
of a name in one scope is a reference to the first.
-/

namespace DeadCode

structure Layout where
  scopes : Array Scope
  scopeOf : Table NodeId ScopeId
  visits : Array (Visit ScopeId)

namespace Layout

/-- The scope inside `n`, opened as a child of `outer` where the node opens one. -/
def enter (l : Layout) (t : Tree) (outer : ScopeId) (n : NodeId) : ScopeId × Layout :=
  let fresh := l.scopes.size
  match t.scopeOpened? n with
  | none => (outer, l)
  | some kind =>
    (fresh, { l with
      scopes := (l.scopes.modify outer fun s => { s with children := s.children ++ [fresh] }).push
        { node := n, kind, parent := some outer }
      scopeOf := l.scopeOf.insert n fresh })

def extend (t : Tree) : Nat → ScopeId → Layout → NodeId → Layout
  | 0, _, l, _ => l
  | fuel + 1, outer, l, n =>
    let (inner, l) := l.enter t outer n
    let l := { l with visits := l.visits.push ⟨n, outer, inner⟩ }
    (t.children n).foldl (extend t fuel inner) l

def ofTree (t : Tree) : Layout :=
  extend t t.size Analysis.program
    { scopes := #[{ node := t.root, kind := .program }]
      scopeOf := (Table.mk []).insert t.root Analysis.program
      visits := #[] } t.root

end Layout

/-- `declaring` holds the identifiers that declare; `uses` and `exports` wait until all names are bound. -/
structure Survey where
  analysis : Analysis
  declaring : List NodeId := []
  uses : Array (NodeId × ScopeId) := #[]
  exports : Array (NodeId × ScopeId × NodeId) := #[]

namespace Survey

def bind (s : Survey) (t : Tree) (d : Declaration ScopeId) : Survey :=
  let a := s.analysis
  let name := t.text d.identifier
  let s := { s with declaring := d.identifier :: s.declaring }
  match a.own? d.target name with
  | some existing => { s with analysis := a.reference existing d.identifier }
  | none =>
    let fresh := a.bindings.size
    let a := { a with
      bindings := a.bindings.push
        { name, keyword := d.keyword, identifier := d.identifier, path := d.path
          construct := d.construct, scope := d.target, coDeclared := d.coDeclared }
      declared := a.declared.insert d.identifier fresh }
    { s with analysis := a.modifyScope d.target fun sc => { sc with names := sc.names.insert name fresh } }

def visit (t : Tree) (s : Survey) (v : Visit ScopeId) : Survey :=
  let hoist := s.analysis.functionParent v.inner
  let s := (v.declarationsAt hoist t).foldl (bind · t) s
  let s := { s with exports := s.exports ++ ((v.exportsAt t).map fun i => (i, v.outer, v.node)).toArray }
  if (t.kind v.node).isReference && !s.declaring.contains v.node && t.refers v.node then
    { s with uses := s.uses.push (v.node, v.inner) }
  else s

end Survey

namespace Analysis

/-- Counts `n` as a reference to whatever `identifier` names in a scope. -/
def resolve (a : Analysis) (t : Tree) (identifier : NodeId) (s : ScopeId) (n : NodeId) : Analysis :=
  match a.lookup? s (t.text identifier) with
  | none => a
  | some b => a.reference b n

/-- A fresh analysis of the tree; only the number of crawls is carried over. -/
def crawl (a : Analysis) (t : Tree) : Analysis :=
  let layout := Layout.ofTree t
  let start : Analysis := { scopes := layout.scopes, scopeOf := layout.scopeOf }
  let survey := layout.visits.foldl (Survey.visit t) { analysis := start }
  let exported := survey.exports.foldl (fun a (i, s, n) => a.resolve t i s n) survey.analysis
  let used := survey.uses.foldl (fun a (n, s) => a.resolve t n s n) exported
  { used with version := some t.version, crawls := a.crawls + 1 }

end Analysis
end DeadCode
