import DeadCode.Kind
import DeadCode.Field

/-!
The editable syntax tree. Nodes live in a store and name each other by position in it. Every node keeps
the text between it and its previous sibling (`leading`), so that printing the remaining children in
order gives the program text less what was removed. Membership is recorded twice: downwards in
`children`, upwards in `parent` and `removed`.

Walks are bounded by the number of nodes, which no path without a cycle exceeds.
-/

namespace DeadCode

abbrev NodeId := Nat

structure Node where
  kind : Kind
  named : Bool := true
  field : Option Field := none
  text : String := ""
  leading : String := ""
  trailing : String := ""
  children : List NodeId := []
  parent : Option NodeId := none
  removed : Bool := false
  line : Nat := 0
  column : Nat := 0
  deriving DecidableEq

/-- What a position outside the store holds. -/
instance : Inhabited Node := ⟨{ kind := .other "", removed := true }⟩

/-- `version` counts the mutations. -/
structure Tree where
  nodes : Array Node
  root : NodeId := 0
  path : Option String := none
  version : Nat := 0
  deriving DecidableEq, Inhabited

/-- What printing does with comments. -/
inductive Comments where
  | kept | dropped
  deriving DecidableEq

namespace Tree

def size (t : Tree) : Nat := t.nodes.size

def node (t : Tree) (n : NodeId) : Node := t.nodes.getD n default

def modify (t : Tree) (n : NodeId) (f : Node → Node) : Tree :=
  { t with nodes := t.nodes.modify n f }

/-- Adds a node that is in no child list and returns its name. -/
def add (t : Tree) (d : Node) : NodeId × Tree :=
  (t.size, { t with nodes := t.nodes.push d })

def kind (t : Tree) (n : NodeId) : Kind := (t.node n).kind

def text (t : Tree) (n : NodeId) : String := (t.node n).text

def children (t : Tree) (n : NodeId) : List NodeId := (t.node n).children

def parent (t : Tree) (n : NodeId) : Option NodeId := (t.node n).parent

def namedChildren (t : Tree) (n : NodeId) : List NodeId :=
  (t.children n).filter fun c => (t.node c).named

def child? (t : Tree) (n : NodeId) (f : Field) : Option NodeId :=
  (t.children n).find? fun c => (t.node c).field = some f

def indexInParent? (t : Tree) (n : NodeId) : Option Nat :=
  (t.parent n).bind fun p => (t.children p).idxOf? n

/-! ## Membership -/

def climb (t : Tree) : Nat → NodeId → NodeId
  | 0, n => n
  | fuel + 1, n =>
    match t.parent n with
    | none => n
    | some p => climb t fuel p

/-- The last node on the way up through parents. -/
def top (t : Tree) (n : NodeId) : NodeId := t.climb t.size n

def contains (t : Tree) (n : NodeId) : Bool := !(t.node n).removed && t.top n == t.root

def descend (t : Tree) : Nat → NodeId → List NodeId
  | 0, _ => []
  | fuel + 1, n => n :: (t.children n).flatMap (descend t fuel)

/-- The subtree of `n` in pre-order. -/
def walkFrom (t : Tree) (n : NodeId) : List NodeId := t.descend t.size n

def walk (t : Tree) : List NodeId := t.walkFrom t.root

/-! ## Printing -/

def isBlockComment (text : String) : Bool := text.toList.take 2 == ['/', '*']

/-- The text of a subtree without its own leading text. A dropped block comment leaves a blank, since
it can separate two tokens. -/
def print (t : Tree) (comments : Comments) : Nat → NodeId → String
  | 0, _ => ""
  | fuel + 1, n =>
    let d := t.node n
    if comments = .dropped ∧ d.kind = .comment then
      if isBlockComment d.text then " " else ""
    else if d.children.isEmpty then d.text ++ d.trailing
    else String.join (d.children.map fun c => (t.node c).leading ++ print t comments fuel c) ++ d.trailing

/-- Program text of the subtree of `n`, comments and all. -/
def source (t : Tree) (n : NodeId) : String := t.print .kept t.size n

/-- Program text of the current tree, comments dropped. -/
def render (t : Tree) : String := (t.node t.root).leading ++ t.print .dropped t.size t.root

/-! ## One lemma per operation -/

theorem node_modify (t : Tree) (n m : NodeId) (f : Node → Node) :
    (t.modify n f).node m = if n = m ∧ m < t.size then f (t.node m) else t.node m := by
  unfold node modify size
  by_cases h : m < t.nodes.size
  · by_cases e : n = m <;> simp [Array.getD, h, e, Array.getElem_modify]
  · simp [Array.getD, h]

@[simp] theorem size_modify (t : Tree) (n : NodeId) (f : Node → Node) :
    (t.modify n f).size = t.size := by
  simp [size, modify]

@[simp] theorem size_add (t : Tree) (d : Node) : (t.add d).2.size = t.size + 1 := by
  simp [size, add]

theorem node_add (t : Tree) (d : Node) (m : NodeId) :
    (t.add d).2.node m = if m = t.size then d else t.node m := by
  simp only [node, add, size, Array.getD_eq_getD_getElem?, Array.getElem?_push]
  split <;> simp_all

end Tree
end DeadCode
