import DeadCode.Tree
import DeadCode.Text.Quoted

/-!
Edits of the tree. Each edit here is one mutation: it takes the subtree of one node out and leaves valid
syntax around it, or it fails and changes nothing. A list member goes with one neighbouring comma, and a
statement in a slot that must hold one is replaced by an empty statement.
-/

namespace DeadCode

/-- Nodes are given as they are described in messages. -/
inductive SurgeryError where
  | notAttached (node : String)
  | unlisted (parent node : String)
  | notReplaceable (node : String)
  deriving DecidableEq

def SurgeryError.message : SurgeryError → String
  | .notAttached node => node ++ " is not attached to a parent"
  | .unlisted parent node => "stale parent link: " ++ parent ++ " does not contain " ++ node
  | .notReplaceable node => "cannot replace " ++ node ++ ": stale parent link"

def Node.describe (d : Node) : String :=
  let text := if d.children.isEmpty then " " ++ Text.quoted d.text else ""
  s!"<Node {d.kind.name}{text} @{d.line}:{d.column}>"

/-- The slots of a statement that must keep some statement. The branch of an `else` has no field. -/
def Kind.hasSlot : Kind → Option Field → Bool
  | .ifStatement, some .consequence
  | .elseClause, none
  | .whileStatement, some .body
  | .doStatement, some .body
  | .forStatement, some .body
  | .forStatement, some .initializer
  | .forInStatement, some .body
  | .labeledStatement, some .body
  | .withStatement, some .body => true
  | _, _ => false

namespace Tree

def describe (t : Tree) (n : NodeId) : String := (t.node n).describe

def touch (t : Tree) : Tree := { t with version := t.version + 1 }

/-- Marks a node as taken out. -/
def drop (t : Tree) (n : NodeId) : Tree :=
  t.modify n fun d => { d with parent := none, removed := true }

def isCommaAt (t : Tree) (siblings : List NodeId) (i : Nat) : Bool :=
  siblings[i]?.any fun c => t.kind c = .comma

/-- The position of the comma that leaves with the member at `i`: the following one if there is one,
else the preceding one. -/
def commaFor? (t : Tree) (siblings : List NodeId) (i : Nat) : Option Nat :=
  if t.isCommaAt siblings (i + 1) then some (i + 1)
  else if 0 < i ∧ t.isCommaAt siblings (i - 1) then some (i - 1)
  else none

/-- The comma itself. -/
def commaOf? (t : Tree) (siblings : List NodeId) (i : Nat) : Option NodeId :=
  (t.commaFor? siblings i).bind (siblings[·]?)

/-- A child list without the members at `i` and at the position of the comma. -/
def without (siblings : List NodeId) (i : Nat) : Option Nat → List NodeId
  | some j => (siblings.eraseIdx (max i j)).eraseIdx (min i j)
  | none => siblings.eraseIdx i

def dropComma (t : Tree) : Option NodeId → Tree
  | some c => t.drop c
  | none => t

/-- Gives the first of some nodes a new leading text. -/
def passLeading (t : Tree) (leading : String) : List NodeId → Tree
  | c :: _ => t.modify c fun d => { d with leading }
  | [] => t

/-- Takes the member at `i` and its comma out of a child list. A new first child takes over the leading
text of the old one. -/
def cutOut (t : Tree) (p n : NodeId) (siblings : List NodeId) (i : Nat) : Tree :=
  let comma := t.commaFor? siblings i
  let rest := without siblings i comma
  let leading := (t.node n).leading
  let gone := t.commaOf? siblings i
  let t := t.modify p fun d => { d with children := rest }
  let t := t.dropComma gone
  let t := if min i (comma.getD i) = 0 then t.passLeading leading rest else t
  (t.drop n).touch

def detach (t : Tree) (n : NodeId) : Except SurgeryError Tree :=
  match t.parent n, (t.node n).removed with
  | none, _ | _, true => .error (.notAttached (t.describe n))
  | some p, false =>
    match (t.children p).idxOf? n with
    | none => .error (.unlisted (t.describe p) (t.describe n))
    | some i => .ok (t.cutOut p n (t.children p) i)

/-- Puts `new` where `old` was. -/
def replace (t : Tree) (old new : NodeId) : Except SurgeryError Tree :=
  match t.parent old with
  | none => .error (.notReplaceable (t.describe old))
  | some p =>
    match (t.children p).idxOf? old with
    | none => .error (.notReplaceable (t.describe old))
    | some i =>
      let field := (t.node old).field
      let t := t.modify new fun d => { d with parent := some p, field }
      let t := t.modify p fun d => { d with children := d.children.set i new }
      .ok (t.drop old).touch

/-- An empty statement with the leading text and the position of another node, in no child list. -/
def addEmptyStatement (t : Tree) (like : NodeId) : NodeId × Tree :=
  let d := t.node like
  t.add { kind := .emptyStatement, text := ";", leading := d.leading, line := d.line, column := d.column }

/-- Removes a statement; none where a statement cannot safely disappear. -/
def removeStatement (t : Tree) (n : NodeId) : Except SurgeryError (Option Tree) :=
  match t.parent n with
  | none => .error (.notAttached (t.describe n))
  | some p =>
    if (t.kind p).listsStatements then (t.detach n).map some
    else if (t.kind p).hasSlot (t.node n).field then
      let (fresh, t) := t.addEmptyStatement n
      (t.replace n fresh).map some
    else .ok none

end Tree
end DeadCode
