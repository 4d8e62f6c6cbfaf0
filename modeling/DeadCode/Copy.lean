import DeadCode.Outline
import DeadCode.Tree
import DeadCode.Text.Utf8

/-!
Copying an outline into an editable tree. Nodes are numbered in pre-order. Every byte of the source goes
into one text: a leaf's own text, the leading text of a node, or the trailing text after the last child
of a node. A text that is not UTF-8 stops the copy; `readings` fixes which one is reported.
-/

namespace DeadCode.Outline

def slice (source : ByteArray) (range : Nat × Nat) : ByteArray := source.extract range.1 range.2

def textAt (source : ByteArray) (start stop : Nat) : String :=
  (String.fromUTF8? (slice source (start, stop))).getD ""

/-- The range of a leaf's own text. -/
def ownRange : Outline → List (Nat × Nat)
  | node h [] => [(h.start, h.stop)]
  | node _ (_ :: _) => []

/-- The texts of a child list, then the text behind it up to `stop`. -/
def listRanges (previous stop : Nat) : List Outline → List (Nat × Nat)
  | [] => [(previous, stop)]
  | c :: cs => c.ownRange ++ (previous, c.head.start) :: listRanges c.head.stop stop cs

mutual

/-- The texts below a node in the order in which they are read: the child list of a node, then the
subtrees of its children from the last to the first. -/
def innerRanges : Outline → List (Nat × Nat)
  | node _ [] => []
  | node h (c :: cs) => listRanges h.start h.stop (c :: cs) ++ (innerRangesAll cs ++ c.innerRanges)

def innerRangesAll : List Outline → List (Nat × Nat)
  | [] => []
  | c :: cs => innerRangesAll cs ++ c.innerRanges

end

def readings (o : Outline) (source : ByteArray) : List (Nat × Nat) :=
  o.ownRange ++ (0, o.head.start) :: o.innerRanges ++ [(o.head.stop, source.size)]

def lastStop (start : Nat) : List Outline → Nat
  | [] => start
  | [c] => c.head.stop
  | _ :: cs => lastStop start cs

/-- Names of the members of a child list whose first node has the name `first`. -/
def names (first : NodeId) : List Outline → List NodeId
  | [] => []
  | c :: cs => first :: names (first + c.size) cs

mutual

/-- The nodes of an outline in pre-order; its first node has the name `name`. -/
def copyFrom (source : ByteArray) (parent : Option NodeId) (leading : String) (name : NodeId) :
    Outline → List Node
  | node h cs =>
    let (line, column) := position source h.start
    { kind := h.kind, named := h.named, field := h.field
      text := if cs.isEmpty then textAt source h.start h.stop else ""
      leading
      trailing := if cs.isEmpty then "" else textAt source (lastStop h.start cs) h.stop
      children := names (name + 1) cs
      parent, line, column } :: copyAll source name h.start (name + 1) cs

def copyAll (source : ByteArray) (parent : NodeId) (previous : Nat) (name : NodeId) :
    List Outline → List Node
  | [] => []
  | c :: cs =>
    copyFrom source (some parent) (textAt source previous c.head.start) name c ++
      copyAll source parent c.head.stop (name + c.size) cs

end

def nodes (o : Outline) (source : ByteArray) : List Node :=
  match copyFrom source none (textAt source 0 o.head.start) 0 o with
  | [] => []
  | root :: rest => { root with
      field := none
      trailing := root.trailing ++ textAt source o.head.stop source.size } :: rest

end DeadCode.Outline

namespace DeadCode.Tree

def ofOutline (o : Outline) (source : ByteArray) (path : Option String) :
    Except Text.Utf8.Fault Tree :=
  match (o.readings source).findSome? fun r =>
      match Text.Utf8.decode (Outline.slice source r) with
      | .ok _ => none
      | .error fault => some fault with
  | some fault => .error fault
  | none => .ok { nodes := (o.nodes source).toArray, path }

end DeadCode.Tree
