import DeadCode.Declaration

/-!
Name resolution, said of the tree alone. Scopes are named by the nodes that open them and bindings by
their declaring identifiers. A name declared in a scope stands for its first declaration there; an
occurrence stands for the name in the innermost scope around it that declares it. `references` lists all
pairs of a referring node and the identifier it refers to, in the order in which an analysis counts them.
-/

namespace DeadCode.Tree

def lineageFrom (t : Tree) : Nat → NodeId → List NodeId
  | 0, _ => []
  | fuel + 1, n =>
    n :: match t.parent n with
      | none => []
      | some p => lineageFrom t fuel p

/-- A node and all nodes above it, inside out. -/
def lineage (t : Tree) (n : NodeId) : List NodeId := t.lineageFrom t.size n

def isScope (t : Tree) (n : NodeId) : Bool := n == t.root || (t.scopeOpened? n).isSome

def scopeKind (t : Tree) (n : NodeId) : ScopeKind := (t.scopeOpened? n).getD .program

/-- The scopes around a node, inside out; a node that opens one is inside it. -/
def scopeChain (t : Tree) (n : NodeId) : List NodeId := (t.lineage n).filter t.isScope

def scopeNode (t : Tree) (n : NodeId) : NodeId := (t.scopeChain n).headD t.root

/-- The scope around a node, its own left out. -/
def outerNode (t : Tree) (n : NodeId) : NodeId :=
  match t.parent n with
  | none => t.root
  | some p => t.scopeNode p

/-- Where `var` declares: the nearest function or the program. -/
def hoistNode (t : Tree) (n : NodeId) : NodeId :=
  ((t.scopeChain n).find? fun s => t.scopeKind s = .function ∨ t.scopeKind s = .program).getD t.root

def visitOf (t : Tree) (n : NodeId) : Visit NodeId := ⟨n, t.outerNode n, t.scopeNode n⟩

def declarationsOf (t : Tree) (n : NodeId) : List (Declaration NodeId) :=
  (t.visitOf n).declarationsAt (t.hoistNode n) t

def declarations (t : Tree) : List (Declaration NodeId) := t.walk.flatMap t.declarationsOf

def declaring (t : Tree) : List NodeId := t.declarations.map Declaration.identifier

/-- The first of some declarations that puts a name into a scope. -/
def firstOf? (t : Tree) (ds : List (Declaration NodeId)) (s : NodeId) (name : String) :
    Option (Declaration NodeId) :=
  ds.find? fun d => d.target = s ∧ t.text d.identifier = name

/-- The declarations that introduce a name; any other one only refers to such a one. -/
def introducing (t : Tree) (ds : List (Declaration NodeId)) : List (Declaration NodeId) :=
  ds.filter fun d => t.firstOf? ds d.target (t.text d.identifier) = some d

def repeating (t : Tree) (ds : List (Declaration NodeId)) : List (NodeId × NodeId) :=
  ds.filterMap fun d =>
    (t.firstOf? ds d.target (t.text d.identifier)).bind fun e =>
      if e = d then none else some (d.identifier, e.identifier)

def declared? (t : Tree) (s : NodeId) (name : String) : Option (Declaration NodeId) :=
  t.firstOf? t.declarations s name

def bindings (t : Tree) : List (Declaration NodeId) := t.introducing t.declarations

def redeclared (t : Tree) : List (NodeId × NodeId) := t.repeating t.declarations

/-- What a name stands for in a scope. -/
def resolve? (t : Tree) (s : NodeId) (name : String) : Option (Declaration NodeId) :=
  (t.scopeChain s).findSome? (t.declared? · name)

def isUse (t : Tree) (n : NodeId) : Bool :=
  (t.kind n).isReference && !t.declaring.contains n && t.refers n

def exportedBy (t : Tree) (n : NodeId) : List (NodeId × NodeId) :=
  ((t.visitOf n).exportsAt t).filterMap fun i =>
    (t.resolve? (t.outerNode n) (t.text i)).map fun d => (n, d.identifier)

def exported (t : Tree) : List (NodeId × NodeId) := t.walk.flatMap t.exportedBy

def used (t : Tree) : List (NodeId × NodeId) :=
  (t.walk.filter t.isUse).filterMap fun n =>
    (t.resolve? (t.scopeNode n) (t.text n)).map fun d => (n, d.identifier)

def references (t : Tree) : List (NodeId × NodeId) := t.redeclared ++ t.exported ++ t.used

/-! ## What refers -/

section References

variable {t : Tree} {r : NodeId × NodeId}

/-- A declaration refers if it is not the first of its name in its scope. -/
theorem mem_redeclared_iff : r ∈ t.redeclared ↔ ∃ d ∈ t.declarations, ∃ e,
    t.declared? d.target (t.text d.identifier) = some e ∧ e ≠ d ∧ r = (d.identifier, e.identifier) := by
  rw [redeclared, repeating, List.mem_filterMap]
  refine exists_congr fun d => and_congr_right fun _ => ?_
  rw [Option.bind_eq_some_iff]
  refine exists_congr fun e => and_congr_right fun _ => ?_
  by_cases he : e = d
  · simp [he]
  · simp [he, eq_comm]

theorem mem_exportedBy_iff {s : NodeId} : r ∈ t.exportedBy s ↔ ∃ i ∈ (t.visitOf s).exportsAt t, ∃ d,
    t.resolve? (t.outerNode s) (t.text i) = some d ∧ r = (s, d.identifier) := by
  simp only [exportedBy, List.mem_filterMap, Option.map_eq_some_iff, eq_comm (a := r)]

theorem mem_exported_iff : r ∈ t.exported ↔ ∃ s ∈ t.walk, ∃ i ∈ (t.visitOf s).exportsAt t, ∃ d,
    t.resolve? (t.outerNode s) (t.text i) = some d ∧ r = (s, d.identifier) := by
  simp only [exported, List.mem_flatMap, mem_exportedBy_iff]

theorem isUse_iff {n : NodeId} : t.isUse n = true ↔
    (t.kind n).isReference = true ∧ n ∉ t.declaring ∧ t.refers n = true := by
  simp only [isUse, Bool.and_eq_true, Bool.not_eq_true', List.contains_eq_mem, decide_eq_false_iff_not,
    and_assoc]

theorem mem_used_iff : r ∈ t.used ↔ ∃ n ∈ t.walk, t.isUse n = true ∧ ∃ d,
    t.resolve? (t.scopeNode n) (t.text n) = some d ∧ r = (n, d.identifier) := by
  simp only [used, List.mem_filterMap, List.mem_filter, Option.map_eq_some_iff, eq_comm (a := r), and_assoc]

theorem mem_references_iff : r ∈ t.references ↔ r ∈ t.redeclared ∨ r ∈ t.exported ∨ r ∈ t.used := by
  rw [references, List.mem_append, List.mem_append, or_assoc]

theorem exportsAt_of_kind {n : NodeId} (hk : t.kind n ≠ .exportStatement) : (t.visitOf n).exportsAt t = [] :=
  if_neg hk

/-- What refers by an export is an export statement. -/
theorem kind_of_exported (hr : r ∈ t.exported) : t.kind r.1 = .exportStatement := by
  obtain ⟨s, _, i, hi, _, _, rfl⟩ := mem_exported_iff.mp hr
  refine Decidable.byContradiction fun hk => ?_
  rw [exportsAt_of_kind hk] at hi
  cases hi

end References

end DeadCode.Tree
