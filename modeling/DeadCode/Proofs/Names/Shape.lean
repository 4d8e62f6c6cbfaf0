import DeadCode.Proofs.Names.Declarers

/-!
The shape of the trees that the grammars produce, as far as name resolution depends on it, said of the
attached nodes.
-/

namespace DeadCode

/-- Kinds of declarations that consist of declarators; grammars have kinds of their own for some. -/
def Kind.holdsDeclarators : Kind → Bool
  | .lexicalDeclaration | .variableDeclaration | .other _ => true
  | _ => false

/-- Kinds of nodes that list parts of an import. -/
def Kind.listsImports : Kind → Bool
  | .namedImports | .importClause | .importStatement => true
  | _ => false

/-- Kinds of nodes below which something may be cut. -/
def Kind.isSite : Kind → Bool
  | .program | .statementBlock | .switchCase | .switchDefault | .ifStatement | .elseClause
  | .whileStatement | .doStatement | .forStatement | .forInStatement | .labeledStatement | .withStatement
  | .lexicalDeclaration | .variableDeclaration | .namedImports | .importClause | .importStatement
  | .other _ => true
  | _ => false

/-- Kinds that have no parts. -/
def Kind.isLeaf : Kind → Bool
  | .comma | .fromWord | .comment | .number | .identifier => true
  | _ => false

namespace Tree

/-- What an analysis relies on when a part of the tree leaves. -/
structure Framed (t : Tree) : Prop where
  root_program : t.kind t.root = .program
  leaf : ∀ n, t.Below t.root n → (t.kind n).isLeaf = true ∨ (t.node n).named = false → t.children n = []
  /-- The keyword of a declaration is in its field `kind`, or the declaration is a `var` by its kind. -/
  keyword : ∀ n p, t.Below t.root n → t.kind n = .variableDeclarator → t.parent n = some p →
    (t.kind p).holdsDeclarators = true ∧ (t.kind p = .variableDeclaration ∨
      ∃ k, t.child? p .kind = some k ∧ t.kind k ≠ .variableDeclarator ∧ t.kind k ≠ .comma)
  exportSpecifier : ∀ n p, t.Below t.root n → t.kind n = .exportSpecifier → t.parent n = some p →
    ∃ s, t.parent p = some s ∧ t.kind s = .exportStatement

structure Shape (t : Tree) : Prop extends Framed t where
  /-- Beside its declarators a declaration has tokens and comments only. -/
  declaration : ∀ n p, t.Below t.root n → t.kind n = .variableDeclarator → t.parent n = some p →
    ∀ c ∈ t.children p, t.kind c = .variableDeclarator ∨ t.children c = []
  /-- An expression statement holds one expression beside tokens and comments. -/
  expression : ∀ n, t.Below t.root n → t.kind n = .expressionStatement →
    ∃ e, ∀ c ∈ t.children n, c ≠ e → t.children c = []
  /-- An assignment holds its two operands beside tokens and comments. -/
  assignment : ∀ n, t.Below t.root n → t.kind n = .assignmentExpression → ∀ c ∈ t.children n,
    t.child? n .left = some c ∨ t.child? n .right = some c ∨ t.children c = []
  /-- An import specifier holds names only. -/
  specifier : ∀ n m, t.Below t.root n → t.kind n = .importSpecifier → t.Below n m →
    (t.kind m).declares = false
  function_named : ∀ n, t.Below t.root n →
    t.kind n = .functionDeclaration ∨ t.kind n = .generatorFunctionDeclaration → (t.node n).named = true

/-- What a node strictly inside a declarator introduces belongs to a scope inside the declarator. -/
def Local (t : Tree) : Prop :=
  ∀ d ∈ t.bindings, ∀ m, d ∈ t.declarationsOf m → ∀ p, t.Below t.root p → t.kind p = .variableDeclarator →
    t.Below p m → m ≠ p → t.Below p d.target

/-- Nothing is cut from what an export statement declares, declarators apart. -/
def ExportsDeclarations (t : Tree) : Prop :=
  ∀ s d, t.Below t.root s → t.kind s = .exportStatement → t.child? s .declaration = some d →
    (t.kind d).isSite = true → t.kind d = .lexicalDeclaration ∨ t.kind d = .variableDeclaration ∨
      (t.kind d).holdsDeclarators = true ∧ ∀ c ∈ t.children d, t.kind c ≠ .variableDeclarator

end Tree
end DeadCode
