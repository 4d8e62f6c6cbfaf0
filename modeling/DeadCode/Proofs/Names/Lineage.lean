import DeadCode.Proofs.Names.Resolution
import DeadCode.Proofs.Tree.Consistent

/-!
The line of nodes above a node and the scopes among them. In a consistent tree the line of an attached
node ends at the root, so that every attached node has a scope, the innermost one of its chain.
-/

namespace DeadCode.Tree

variable {t : Tree}

theorem lineageFrom_eq (ht : t.Consistent) {k f : Nat} {n : NodeId} (h : t.Hangs k n) (hf : k < f) :
    t.lineageFrom f n = t.lineageFrom (k + 1) n := by
  induction h generalizing f with
  | root =>
    obtain ⟨f, rfl⟩ : ∃ m, f = m + 1 := ⟨f - 1, by omega⟩
    simp only [lineageFrom, ht.root_parent]
  | @child k p c hp h ih =>
    obtain ⟨f, rfl⟩ : ∃ m, f = m + 1 := ⟨f - 1, by omega⟩
    rw [lineageFrom, lineageFrom, hp]
    simp only [List.cons.injEq, true_and]
    exact ih (by omega)

theorem lineage_root (ht : t.Consistent) : t.lineage t.root = [t.root] := by
  rw [lineage, lineageFrom_eq ht .root (Hangs.root.lt_size ht), lineageFrom, ht.root_parent]

theorem lineage_child (ht : t.Consistent) {p c : NodeId} (hp : t.parent c = some p)
    (hr : t.Below t.root p) : t.lineage c = c :: t.lineage p := by
  obtain ⟨k, hk⟩ := below_root_iff.mp hr
  have hc : t.Hangs (k + 1) c := .child hp hk
  rw [lineage, lineage, lineageFrom_eq ht hc (hc.lt_size ht), lineageFrom_eq ht hk (hk.lt_size ht),
    lineageFrom, hp]

theorem mem_lineage_iff (ht : t.Consistent) {m n : NodeId} (hn : t.Below t.root n) :
    m ∈ t.lineage n ↔ t.Below m n := by
  induction hn with
  | refl =>
    rw [lineage_root ht, List.mem_singleton]
    refine ⟨fun h => h ▸ .refl, fun h => ?_⟩
    cases h with
    | refl => rfl
    | step hp _ => rw [ht.root_parent] at hp; cases hp
  | @step p c hp hr ih =>
    rw [lineage_child ht hp hr, List.mem_cons, ih]
    refine ⟨fun h => ?_, fun h => ?_⟩
    · rcases h with rfl | h
      · exact .refl
      · exact .step hp h
    · by_cases hc : m = c
      · exact .inl hc
      · obtain ⟨p', hp', hb⟩ := h.parent (Ne.symm hc)
        rw [hp] at hp'
        cases hp'
        exact .inr hb

/-! ## Scopes -/

@[simp] theorem isScope_root : t.isScope t.root = true := by simp [isScope]

theorem scopeKind_root : t.scopeKind t.root = .program := by simp [scopeKind, scopeOpened?]

theorem scopeChain_root (ht : t.Consistent) : t.scopeChain t.root = [t.root] := by
  simp [scopeChain, lineage_root ht]

theorem scopeChain_child (ht : t.Consistent) {p c : NodeId} (hp : t.parent c = some p)
    (hr : t.Below t.root p) :
    t.scopeChain c = if t.isScope c then c :: t.scopeChain p else t.scopeChain p := by
  simp only [scopeChain, lineage_child ht hp hr, List.filter_cons]

theorem mem_scopeChain_iff (ht : t.Consistent) {s n : NodeId} (hn : t.Below t.root n) :
    s ∈ t.scopeChain n ↔ t.Below s n ∧ t.isScope s = true := by
  rw [scopeChain, List.mem_filter, mem_lineage_iff ht hn]

theorem root_mem_scopeChain (ht : t.Consistent) {n : NodeId} (hn : t.Below t.root n) :
    t.root ∈ t.scopeChain n :=
  (mem_scopeChain_iff ht hn).mpr ⟨hn, isScope_root⟩

theorem scopeChain_eq_cons (ht : t.Consistent) {n : NodeId} (hn : t.Below t.root n) :
    ∃ rest, t.scopeChain n = t.scopeNode n :: rest := by
  cases h : t.scopeChain n with
  | nil => exact absurd (root_mem_scopeChain ht hn) (by simp [h])
  | cons s rest => exact ⟨rest, by rw [scopeNode, h]; rfl⟩

theorem scopeNode_mem (ht : t.Consistent) {n : NodeId} (hn : t.Below t.root n) :
    t.scopeNode n ∈ t.scopeChain n := by
  obtain ⟨rest, h⟩ := scopeChain_eq_cons ht hn
  rw [h]
  exact List.mem_cons_self

theorem scopeNode_below (ht : t.Consistent) {n : NodeId} (hn : t.Below t.root n) :
    t.Below (t.scopeNode n) n :=
  ((mem_scopeChain_iff ht hn).mp (scopeNode_mem ht hn)).1

theorem isScope_scopeNode (ht : t.Consistent) {n : NodeId} (hn : t.Below t.root n) :
    t.isScope (t.scopeNode n) = true :=
  ((mem_scopeChain_iff ht hn).mp (scopeNode_mem ht hn)).2

theorem Below.root_of_below (ht : t.Consistent) {a n : NodeId} (hn : t.Below t.root n)
    (h : t.Below a n) : t.Below t.root a := by
  rcases hn.linear h with h | h
  · exact h
  · cases h with
    | refl => exact .refl
    | step hp _ => rw [ht.root_parent] at hp; cases hp

theorem root_below_scopeNode (ht : t.Consistent) {n : NodeId} (hn : t.Below t.root n) :
    t.Below t.root (t.scopeNode n) :=
  hn.root_of_below ht (scopeNode_below ht hn)

theorem outerNode_root (ht : t.Consistent) : t.outerNode t.root = t.root := by
  simp [outerNode, ht.root_parent]

theorem scopeNode_root (ht : t.Consistent) : t.scopeNode t.root = t.root := by
  simp [scopeNode, scopeChain_root ht]

theorem outerNode_child {p c : NodeId} (hp : t.parent c = some p) : t.outerNode c = t.scopeNode p := by
  simp [outerNode, hp]

theorem root_below_outerNode (ht : t.Consistent) {n : NodeId} (hn : t.Below t.root n) :
    t.Below t.root (t.outerNode n) := by
  cases hn with
  | refl => rw [outerNode_root ht]; exact .refl
  | step hp hr => rw [outerNode_child hp]; exact root_below_scopeNode ht hr

theorem isScope_outerNode (ht : t.Consistent) {n : NodeId} (hn : t.Below t.root n) :
    t.isScope (t.outerNode n) = true := by
  cases hn with
  | refl => rw [outerNode_root ht]; exact isScope_root
  | step hp hr => rw [outerNode_child hp]; exact isScope_scopeNode ht hr

theorem outerNode_below (ht : t.Consistent) {n : NodeId} (hn : t.Below t.root n) :
    t.Below (t.outerNode n) n := by
  cases hn with
  | refl => rw [outerNode_root ht]; exact .refl
  | step hp hr => rw [outerNode_child hp]; exact .step hp (scopeNode_below ht hr)

/-- A node that opens a scope is inside it; any other is inside what is around it. -/
theorem scopeNode_eq (ht : t.Consistent) {n : NodeId} (hn : t.Below t.root n) :
    t.scopeNode n = if t.isScope n then n else t.outerNode n := by
  cases hn with
  | refl => simp [scopeNode_root ht]
  | step hp hr =>
    rw [scopeNode, scopeChain_child ht hp hr, outerNode_child hp, scopeNode]
    split <;> rfl

theorem scopeNode_of_isScope (ht : t.Consistent) {n : NodeId} (hn : t.Below t.root n)
    (hs : t.isScope n = true) : t.scopeNode n = n := by
  rw [scopeNode_eq ht hn, if_pos hs]

/-- The chain of a node is the chain of its scope. -/
theorem scopeChain_scopeNode (ht : t.Consistent) {n : NodeId} (hn : t.Below t.root n) :
    t.scopeChain (t.scopeNode n) = t.scopeChain n := by
  induction hn with
  | refl => rw [scopeNode_root ht]
  | @step p c hp hr ih =>
    rw [scopeNode_eq ht (.step hp hr)]
    by_cases hc : t.isScope c = true
    · rw [if_pos hc]
    · rw [if_neg hc, outerNode_child hp, ih, scopeChain_child ht hp hr, if_neg hc]

/-- The chain of a scope other than the program: itself, then the chain of the scope around it. -/
theorem scopeChain_scope (ht : t.Consistent) {s : NodeId} (hs : t.Below t.root s)
    (hscope : t.isScope s = true) (hne : s ≠ t.root) :
    t.scopeChain s = s :: t.scopeChain (t.outerNode s) := by
  obtain ⟨p, hp, hr⟩ := hs.parent hne
  rw [scopeChain_child ht hp hr, if_pos hscope, outerNode_child hp, scopeChain_scopeNode ht hr]

/-! ## Where `var` declares -/

theorem hoistNode_scopeNode (ht : t.Consistent) {n : NodeId} (hn : t.Below t.root n) :
    t.hoistNode (t.scopeNode n) = t.hoistNode n := by
  rw [hoistNode, hoistNode, scopeChain_scopeNode ht hn]

theorem hoistNode_mem (ht : t.Consistent) {n : NodeId} (hn : t.Below t.root n) :
    t.hoistNode n ∈ t.scopeChain n := by
  rw [hoistNode]
  cases h : (t.scopeChain n).find? fun s => t.scopeKind s = .function ∨ t.scopeKind s = .program with
  | none => exact root_mem_scopeChain ht hn
  | some s => exact List.mem_of_find?_eq_some h

/-- The scope that `var` declares in, seen from a scope other than the program. -/
theorem hoistNode_scope (ht : t.Consistent) {s : NodeId} (hs : t.Below t.root s)
    (hscope : t.isScope s = true) (hne : s ≠ t.root) : t.hoistNode s =
      if t.scopeKind s = .function ∨ t.scopeKind s = .program then s
      else t.hoistNode (t.outerNode s) := by
  rw [hoistNode, scopeChain_scope ht hs hscope hne, List.find?_cons]
  by_cases h : t.scopeKind s = .function ∨ t.scopeKind s = .program
  · simp [h]
  · rw [if_neg h, hoistNode]
    simp [h]

/-! ## What a name stands for -/

theorem resolve?_root (ht : t.Consistent) (name : String) :
    t.resolve? t.root name = t.declared? t.root name := by
  rw [resolve?, scopeChain_root ht]
  cases h : t.declared? t.root name <;> simp [h]

end DeadCode.Tree
