import DeadCode.Scope

/-!
What a node declares. `declarationsAt` lists the bindings that one node introduces, in source order and
with the scope each goes to; `exportsAt` lists the names an export statement keeps alive. How scopes are
called is left open: by number in an analysis, or by the node that opens them.
-/

namespace DeadCode

structure Declaration (σ : Type) where
  target : σ
  identifier : NodeId
  keyword : String
  path : NodeId
  construct : Construct := .other
  coDeclared : List String
  deriving DecidableEq

namespace Tree

def patternNamesFrom (t : Tree) : Nat → NodeId → List NodeId
  | 0, _ => []
  | fuel + 1, n =>
    let through (f : Field) : List NodeId :=
      match t.child? n f with
      | none => []
      | some c => patternNamesFrom t fuel c
    match t.kind n with
    | .identifier | .shorthandPropertyIdentifierPattern => [n]
    | .objectPattern | .arrayPattern | .formalParameters | .restPattern =>
      (t.namedChildren n).flatMap (patternNamesFrom t fuel)
    | .pairPattern => through .value
    | .assignmentPattern | .objectAssignmentPattern => through .left
    | .requiredParameter | .optionalParameter => through .pattern
    | _ => []

/-- The identifiers that the pattern in a field declares, in source order. -/
def patternNames (t : Tree) (n : NodeId) (f : Field) : List NodeId :=
  match t.child? n f with
  | none => []
  | some p => t.patternNamesFrom t.size p

/-- The names that a declaration statement introduces. -/
def declaredNames (t : Tree) (n : NodeId) : List NodeId :=
  match t.kind n with
  | .lexicalDeclaration | .variableDeclaration =>
    (t.namedChildren n).flatMap fun c =>
      if t.kind c = .variableDeclarator then t.patternNames c .name else []
  | _ => (t.child? n .name).toList

/-- The keyword of the declaration around a declarator. -/
def declarationKeyword (t : Tree) : Option NodeId → String
  | none => "var"
  | some d =>
    if t.kind d = .variableDeclaration then "var"
    else
      match t.child? d .kind, (t.children d).find? fun c => !(t.node c).named with
      | some k, _ | none, some k => t.text k
      | none, none => "let"

/-- The kind of scope a named node opens. The body of a function or of a catch clause shares the scope of
its owner. -/
def opens? (t : Tree) (n : NodeId) : Option ScopeKind :=
  let k := t.kind n
  if k.isFunction then some .function
  else if k.isClass then some .classBody
  else if k = .catchClause then some .catchClause
  else if k = .statementBlock then
    match t.parent n with
    | some p =>
      if (t.node n).field = some .body ∧ ((t.kind p).isFunction ∨ t.kind p = .catchClause) then none
      else some .block
    | none => some .block
  else if k.isBlock then some .block
  else none

/-- As `opens?`; the root, which is the scope of the program anyway, and tokens open none. -/
def scopeOpened? (t : Tree) (n : NodeId) : Option ScopeKind :=
  if n ≠ t.root ∧ (t.node n).named then t.opens? n else none

/-- Whether an identifier refers to a binding of this program where it stands. A re-export with a source
refers to another program. -/
def refers (t : Tree) (n : NodeId) : Bool :=
  match t.parent n with
  | none => false
  | some p =>
    if (t.kind p).namesOutside then false
    else if t.kind p = .exportSpecifier then
      if (t.node n).field = some .alias then false
      else
        match (t.parent p).bind t.parent with
        | none => true
        | some statement => (t.child? statement .source).isNone
    else true

end Tree

/-- `outer` is the scope around the node and `inner` the scope inside; they differ where it opens one. -/
structure Visit (σ : Type) where
  node : NodeId
  outer : σ
  inner : σ
  deriving DecidableEq

namespace Visit

variable {σ : Type}

/-- One name declared by `path`. -/
def declares (target : σ) (keyword : String) (construct : Construct) (t : Tree) (path identifier : NodeId) :
    Declaration σ :=
  { target, identifier, keyword, path, construct, coDeclared := [t.text identifier] }

def parameters (v : Visit σ) (t : Tree) : List (Declaration σ) :=
  (t.patternNames v.node .parameters ++ t.patternNames v.node .parameter).map
    (declares v.inner "param" .other t v.node)

/-- `hoist` is where `var` declares. -/
def ofDeclarator (v : Visit σ) (hoist : σ) (t : Tree) : List (Declaration σ) :=
  let keyword := t.declarationKeyword (t.parent v.node)
  let target := if keyword = "var" then hoist else v.inner
  let found := t.patternNames v.node .name
  found.map fun i =>
    { target, identifier := i, keyword, path := v.node, construct := .declarator
      coDeclared := found.map t.text }

def ofLoop (v : Visit σ) (hoist : σ) (t : Tree) : List (Declaration σ) :=
  match t.child? v.node .kind with
  | none => []
  | some k =>
    let keyword := t.text k
    let target := if keyword = "var" then hoist else v.inner
    (t.patternNames v.node .left).map (declares target keyword .other t v.node)

/-- The name in the field `name`, declared by the node itself. -/
def ofName (v : Visit σ) (t : Tree) (target : σ) (keyword : String) (construct : Construct) :
    List (Declaration σ) :=
  (t.child? v.node .name).toList.map (declares target keyword construct t v.node)

def ofSpecifier (v : Visit σ) (t : Tree) (specifier : NodeId) : List (Declaration σ) :=
  if t.kind specifier = .importSpecifier then
    match (t.child? specifier .alias).or (t.child? specifier .name) with
    | some i =>
      if t.kind i = .identifier then [declares v.outer "import" .importSpecifier t specifier i] else []
    | none => []
  else []

def ofClauseMember (v : Visit σ) (t : Tree) (member : NodeId) : List (Declaration σ) :=
  match t.kind member with
  | .identifier => [declares v.outer "import" .importDefault t member member]
  | .namespaceImport =>
    ((t.namedChildren member).filter fun i => t.kind i = .identifier).map
      (declares v.outer "import" .other t member)
  | .namedImports => (t.namedChildren member).flatMap (v.ofSpecifier t)
  | _ => []

def ofImport (v : Visit σ) (t : Tree) : List (Declaration σ) :=
  (t.namedChildren v.node).flatMap fun c =>
    match t.kind c with
    | .importRequireClause =>
      ((t.namedChildren c).find? fun i => t.kind i = .identifier).toList.map
        (declares v.outer "import" .other t c)
    | .importClause => (t.namedChildren c).flatMap (v.ofClauseMember t)
    | _ => []

/-- A function declaration is named outside, any other function inside and a method not at all. -/
def declarationsAt (v : Visit σ) (hoist : σ) (t : Tree) : List (Declaration σ) :=
  match t.kind v.node with
  | .variableDeclarator => v.ofDeclarator hoist t
  | .functionDeclaration | .generatorFunctionDeclaration =>
    v.ofName t v.outer "function" .function ++ v.parameters t
  | .functionExpression | .plainFunction | .generatorFunction | .arrowFunction =>
    v.ofName t v.inner "local" .other ++ v.parameters t
  | .methodDefinition => v.parameters t
  | .classDeclaration | .abstractClassDeclaration => v.ofName t v.outer "class" .other
  | .plainClass => if (t.node v.node).named then v.ofName t v.inner "class" .other else []
  | .catchClause => (t.patternNames v.node .parameter).map (declares v.inner "catch" .other t v.node)
  | .forInStatement => v.ofLoop hoist t
  | .importStatement => v.ofImport t
  | _ => []

def exportsAt (v : Visit σ) (t : Tree) : List NodeId :=
  if t.kind v.node = .exportStatement then
    match t.child? v.node .declaration with
    | none => []
    | some d => t.declaredNames d
  else []

end Visit
end DeadCode
