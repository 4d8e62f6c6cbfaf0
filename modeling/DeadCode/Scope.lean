import DeadCode.Table
import DeadCode.Tree
import DeadCode.Text.Quoted

/-!
Scopes, bindings and their analysis. An analysis is a store of scopes and bindings with three views from
the tree: the scope a node opens, the binding a name declares, the bindings a node counts towards. It
remembers the version of the tree it describes and is stale for any other.
-/

namespace DeadCode

abbrev ScopeId := Nat
abbrev BindingId := Nat

inductive ScopeKind where
  | program | function | classBody | block | catchClause
  deriving DecidableEq, Inhabited

def ScopeKind.name : ScopeKind → String
  | .program => "program"
  | .function => "function"
  | .classBody => "class"
  | .block => "block"
  | .catchClause => "catch"

/-- What sort of construct introduced a binding. -/
inductive Construct where
  | declarator | function | importSpecifier | importDefault | other
  deriving DecidableEq, Inhabited

def Construct.name : Construct → String
  | .declarator => "declarator"
  | .function => "function"
  | .importSpecifier => "import_specifier"
  | .importDefault => "import_default"
  | .other => "other"

/-- One declared name. `path` is the declaring construct, and `coDeclared` holds every name that a
declarator binds. `keyword` is how it was declared. -/
structure Binding where
  name : String
  keyword : String
  identifier : NodeId
  path : NodeId
  construct : Construct
  scope : ScopeId
  references : List NodeId := []
  coDeclared : List String := []
  deriving DecidableEq, Inhabited

def Binding.referenced (b : Binding) : Bool := !b.references.isEmpty

/-- A lexical region with a table of its own names. `revision` counts how often one of its bindings lost
its last reference. -/
structure Scope where
  node : NodeId
  kind : ScopeKind
  parent : Option ScopeId := none
  children : List ScopeId := []
  names : Table String BindingId := {}
  revision : Nat := 0
  deriving DecidableEq, Inhabited

structure Analysis where
  scopes : Array Scope := #[]
  bindings : Array Binding := #[]
  scopeOf : Table NodeId ScopeId := {}
  resolved : Table NodeId (List BindingId) := {}
  declared : Table NodeId BindingId := {}
  version : Option Nat := none
  crawls : Nat := 0
  deriving DecidableEq, Inhabited

namespace Analysis

/-- The scope of the whole program. -/
def program : ScopeId := 0

def scope (a : Analysis) (s : ScopeId) : Scope := a.scopes.getD s default

def binding (a : Analysis) (b : BindingId) : Binding := a.bindings.getD b default

def modifyScope (a : Analysis) (s : ScopeId) (f : Scope → Scope) : Analysis :=
  { a with scopes := a.scopes.modify s f }

def modifyBinding (a : Analysis) (b : BindingId) (f : Binding → Binding) : Analysis :=
  { a with bindings := a.bindings.modify b f }

def stale (a : Analysis) (t : Tree) : Bool := a.version != some t.version

def climbScope (a : Analysis) (t : Tree) : Nat → NodeId → ScopeId
  | 0, _ => program
  | fuel + 1, n =>
    match a.scopeOf.get? n with
    | some s => s
    | none =>
      match t.parent n with
      | none => program
      | some p => climbScope a t fuel p

/-- The scope that a node belongs to; a node that opens a scope belongs to that one. -/
def enclosing (a : Analysis) (t : Tree) (n : NodeId) : ScopeId := a.climbScope t (t.size + 1) n

def climbFunction (a : Analysis) : Nat → ScopeId → ScopeId
  | 0, s => s
  | fuel + 1, s =>
    match (a.scope s).kind, (a.scope s).parent with
    | .function, _ | .program, _ | _, none => s
    | _, some p => climbFunction a fuel p

/-- The nearest function scope or the program: where `var` declares. -/
def functionParent (a : Analysis) (s : ScopeId) : ScopeId := a.climbFunction a.scopes.size s

def own? (a : Analysis) (s : ScopeId) (name : String) : Option BindingId := (a.scope s).names.get? name

def climbNames (a : Analysis) (name : String) : Nat → ScopeId → Option BindingId
  | 0, _ => none
  | fuel + 1, s =>
    match a.own? s name with
    | some b => some b
    | none =>
      match (a.scope s).parent with
      | none => none
      | some p => climbNames a name fuel p

/-- The binding of a name in the innermost scope that declares it. -/
def lookup? (a : Analysis) (s : ScopeId) (name : String) : Option BindingId :=
  a.climbNames name a.scopes.size s

def ownBindings (a : Analysis) (s : ScopeId) : List BindingId := (a.scope s).names.values

def unreferenced (a : Analysis) (s : ScopeId) : List BindingId :=
  (a.ownBindings s).filter fun b => !(a.binding b).referenced

/-- Counts `n` as a reference to a binding. -/
def reference (a : Analysis) (b : BindingId) (n : NodeId) : Analysis :=
  let a := a.modifyBinding b fun d => { d with references := d.references ++ [n] }
  { a with resolved := a.resolved.insert n ((a.resolved.get? n).getD [] ++ [b]) }

def scopesBelow (a : Analysis) : Nat → ScopeId → List ScopeId
  | 0, _ => []
  | fuel + 1, s => s :: (a.scope s).children.flatMap (scopesBelow a fuel)

/-- The scopes in pre-order; none before the first crawl. -/
def scopeTree (a : Analysis) : List ScopeId :=
  if a.scopes.isEmpty then [] else a.scopesBelow a.scopes.size program

end Analysis

/-! ## Descriptions for messages -/

def Binding.describe (b : Binding) : String := s!"<Binding {b.keyword} {b.name} refs={b.references.length}>"

/-- The names are sorted by code point. -/
def Scope.describe (s : Scope) : String :=
  let names := s.names.keys.mergeSort fun x y => !decide (y < x)
  s!"<Scope {s.kind.name} [" ++ ", ".intercalate (names.map Text.quoted) ++ "]>"

/-- Names that the language itself provides. An assignment to one creates no global. -/
def builtinGlobals : List String :=
  ["AggregateError", "Array", "ArrayBuffer", "Atomics", "BigInt", "BigInt64Array", "BigUint64Array",
   "Boolean", "DataView", "Date", "decodeURI", "decodeURIComponent", "encodeURI", "encodeURIComponent",
   "Error", "escape", "eval", "EvalError", "FinalizationRegistry", "Float32Array", "Float64Array",
   "Function", "globalThis", "Infinity", "Int16Array", "Int32Array", "Int8Array", "isFinite", "isNaN",
   "JSON", "Map", "Math", "NaN", "Number", "Object", "parseFloat", "parseInt", "Promise", "Proxy",
   "RangeError", "ReferenceError", "Reflect", "RegExp", "Set", "SharedArrayBuffer", "String", "Symbol",
   "SyntaxError", "TypeError", "Uint16Array", "Uint32Array", "Uint8Array", "Uint8ClampedArray",
   "undefined", "unescape", "URIError", "WeakMap", "WeakRef", "WeakSet", "arguments"]

def Analysis.bound (a : Analysis) (s : ScopeId) (name : String) : Bool :=
  (a.lookup? s name).isSome || builtinGlobals.contains name

end DeadCode
