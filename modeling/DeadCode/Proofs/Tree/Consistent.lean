import Mathlib.Data.List.Nodup
import Mathlib.Data.List.Perm.Subperm
import Mathlib.Data.List.Range
import DeadCode.Tree

/-!
Consistent trees: the child lists and the parent links of the store tell the same story, and the root has
no parent. Every node that hangs on the root then has one depth, smaller than the size of the store, so
that the bounded walks and climbs reach all there is. Main statements: `mem_walkFrom_iff` (a walk lists
what lies below its start), `walkFrom_pairwise` (no node comes before one of its ancestors, nor twice)
and `contains_iff_mem_walk` (the test upwards agrees with the search downwards).
-/

namespace DeadCode.Tree

structure Consistent (t : Tree) : Prop where
  mem_children : ∀ p c, c ∈ t.children p ↔ t.parent c = some p
  nodup : ∀ p, (t.children p).Nodup
  root_parent : t.parent t.root = none
  root_removed : (t.node t.root).removed = false
  removed_parent : ∀ n, (t.node n).removed = true → t.parent n = none

/-- `n` is `r` or lies in its subtree. -/
inductive Below (t : Tree) (r : NodeId) : NodeId → Prop
  | refl : Below t r r
  | step {p c : NodeId} : t.parent c = some p → Below t r p → Below t r c

/-- `n` hangs on the root, `k` links down. -/
inductive Hangs (t : Tree) : Nat → NodeId → Prop
  | root : Hangs t 0 t.root
  | child {k : Nat} {p c : NodeId} : t.parent c = some p → Hangs t k p → Hangs t (k + 1) c

/-- Every way down from `n` ends within `k` nodes. -/
def Grounded (t : Tree) : Nat → NodeId → Prop
  | 0, _ => False
  | k + 1, n => ∀ c ∈ t.children n, Grounded t k c

variable {t : Tree}

theorem lt_size_of_parent {n p : NodeId} (h : t.parent n = some p) : n < t.size := by
  by_contra hn
  simp [parent, node, Array.getD, show ¬ n < t.nodes.size from hn, default] at h

theorem lt_size_of_child {n c : NodeId} (h : c ∈ t.children n) : n < t.size := by
  by_contra hn
  simp [children, node, Array.getD, show ¬ n < t.nodes.size from hn, default] at h

theorem Consistent.root_lt (ht : t.Consistent) : t.root < t.size := by
  by_contra hn
  have := ht.root_removed
  simp [node, Array.getD, show ¬ t.root < t.nodes.size from hn, default] at this

theorem Consistent.removed_of_parent (ht : t.Consistent) {p n : NodeId} (hp : t.parent n = some p) :
    (t.node n).removed = false := by
  by_contra hr
  rw [ht.removed_parent n (by simpa using hr)] at hp
  cases hp

/-! ## Below -/

theorem Below.trans {a b c : NodeId} (hab : t.Below a b) (hbc : t.Below b c) : t.Below a c := by
  induction hbc with
  | refl => exact hab
  | step hp _ ih => exact .step hp ih

theorem Below.of_parent {p c : NodeId} (h : t.parent c = some p) : t.Below p c := .step h .refl

/-- A node strictly below `r` has a parent, which lies below `r` too. -/
theorem Below.parent {r n : NodeId} (h : t.Below r n) (hne : n ≠ r) :
    ∃ p, t.parent n = some p ∧ t.Below r p := by
  cases h with
  | refl => exact absurd rfl hne
  | step hp h => exact ⟨_, hp, h⟩

theorem Below.of_child (ht : t.Consistent) {p c : NodeId} (h : t.Below t.root c) (hp : t.parent c = some p) :
    t.Below t.root p := by
  obtain ⟨q, hq, hroot⟩ := h.parent fun he => by
    rw [he, ht.root_parent] at hp
    cases hp
  exact Option.some.inj (hp.symm.trans hq) ▸ hroot

/-- The nodes above one node are in line. -/
theorem Below.linear {a b n : NodeId} (ha : t.Below a n) (hb : t.Below b n) :
    t.Below a b ∨ t.Below b a := by
  induction ha with
  | refl => exact .inr hb
  | step hp ha ih =>
    cases hb with
    | refl => exact .inl (.step hp ha)
    | step hp' hb =>
      rw [hp] at hp'
      cases hp'
      exact ih hb

/-- The way from `r` down to a node strictly below it starts with a child of `r`. -/
theorem Below.child {r n : NodeId} (h : t.Below r n) (hne : n ≠ r) :
    ∃ c, t.parent c = some r ∧ t.Below c n := by
  induction h with
  | refl => exact absurd rfl hne
  | @step p n hp h ih =>
    by_cases hpr : p = r
    · subst hpr
      exact ⟨n, hp, .refl⟩
    · obtain ⟨c, hc, hb⟩ := ih hpr
      exact ⟨c, hc, .step hp hb⟩

theorem Below.eq_of_leaf (ht : t.Consistent) {r n : NodeId} (h : t.Below r n) (hr : t.children r = []) :
    n = r := by
  by_contra hne
  obtain ⟨c, hc, _⟩ := h.child hne
  have := (ht.mem_children r c).mpr hc
  rw [hr] at this
  exact List.not_mem_nil this

/-! ## Depth -/

theorem Hangs.unique (ht : t.Consistent) {j k : Nat} {n : NodeId} (hj : t.Hangs j n)
    (hk : t.Hangs k n) : j = k := by
  induction hj generalizing k with
  | root =>
    cases hk with
    | root => rfl
    | child hp _ => rw [ht.root_parent] at hp; cases hp
  | child hp _ ih =>
    cases hk with
    | root => rw [ht.root_parent] at hp; cases hp
    | child hp' hk =>
      rw [hp] at hp'
      cases hp'
      rw [ih hk]

theorem Hangs.lt_size_node (ht : t.Consistent) {k : Nat} {n : NodeId} (h : t.Hangs k n) :
    n < t.size := by
  cases h with
  | root => exact ht.root_lt
  | child hp _ => exact lt_size_of_parent hp

/-- The nodes above a node of depth `k`, itself included, are `k + 1` different ones. -/
theorem Hangs.exists_path (ht : t.Consistent) {k : Nat} {n : NodeId} (h : t.Hangs k n) :
    ∃ path : List NodeId, path.length = k + 1 ∧ path.Nodup ∧
      ∀ m ∈ path, m < t.size ∧ ∃ j ≤ k, t.Hangs j m := by
  induction h with
  | root => exact ⟨[t.root], rfl, by simp, by simpa using ⟨ht.root_lt, .root⟩⟩
  | @child k p c hp h ih =>
    obtain ⟨path, hlen, hnd, hmem⟩ := ih
    have hc : t.Hangs (k + 1) c := .child hp h
    refine ⟨c :: path, by simp [hlen], List.nodup_cons.mpr ⟨?_, hnd⟩, ?_⟩
    · intro hin
      obtain ⟨_, j, hj, hcj⟩ := hmem c hin
      have := hcj.unique ht hc
      omega
    · intro m hm
      rcases List.mem_cons.mp hm with rfl | hm
      · exact ⟨hc.lt_size_node ht, k + 1, le_rfl, hc⟩
      · obtain ⟨hlt, j, hj, hmj⟩ := hmem m hm
        exact ⟨hlt, j, by omega, hmj⟩

theorem Hangs.lt_size (ht : t.Consistent) {k : Nat} {n : NodeId} (h : t.Hangs k n) : k < t.size := by
  obtain ⟨path, hlen, hnd, hmem⟩ := h.exists_path ht
  have hsub : path ⊆ List.range t.size := fun m hm => List.mem_range.mpr (hmem m hm).1
  have := (List.subperm_of_subset hnd hsub).length_le
  simp only [List.length_range] at this
  omega

theorem Hangs.grounded (ht : t.Consistent) {d : Nat} : ∀ {k : Nat} {n : NodeId}, t.Hangs k n →
    t.size - k = d → t.Grounded d n := by
  induction d with
  | zero => intro k n h hd; have := h.lt_size ht; omega
  | succ d ih =>
    intro k n h hd c hc
    exact ih (.child ((ht.mem_children n c).mp hc) h) (by omega)

theorem Grounded.mono {k l : Nat} (hkl : k ≤ l) {n : NodeId} (h : t.Grounded k n) :
    t.Grounded l n := by
  induction k generalizing l n with
  | zero => exact h.elim
  | succ k ih =>
    obtain ⟨l, rfl⟩ : ∃ m, l = m + 1 := ⟨l - 1, by omega⟩
    exact fun c hc => ih (by omega) (h c hc)

/-- A node hangs on the root exactly if it lies below it. -/
theorem below_root_iff {n : NodeId} : t.Below t.root n ↔ ∃ k, t.Hangs k n := by
  constructor
  · intro h
    induction h with
    | refl => exact ⟨0, .root⟩
    | step hp _ ih =>
      obtain ⟨k, hk⟩ := ih
      exact ⟨k + 1, .child hp hk⟩
  · rintro ⟨k, h⟩
    induction h with
    | root => exact .refl
    | child hp _ ih => exact .step hp ih

theorem Below.grounded (ht : t.Consistent) {n : NodeId} (h : t.Below t.root n) :
    t.Grounded t.size n := by
  obtain ⟨k, hk⟩ := below_root_iff.mp h
  exact (hk.grounded ht rfl).mono (by omega)

theorem Below.lt_size (ht : t.Consistent) {n : NodeId} (h : t.Below t.root n) : n < t.size := by
  obtain ⟨k, hk⟩ := below_root_iff.mp h
  exact hk.lt_size_node ht

/-- Two nodes below each other are one. -/
theorem Below.antisymm (ht : t.Consistent) {a b : NodeId} (ha : t.Below t.root a)
    (hab : t.Below a b) (hba : t.Below b a) : a = b := by
  have deeper : ∀ {m n : NodeId} {j : Nat}, t.Hangs j m → t.Below m n →
      ∃ k, j ≤ k ∧ t.Hangs k n ∧ (n ≠ m → j < k) := by
    intro m n j hm hmn
    induction hmn with
    | refl => exact ⟨j, le_rfl, hm, fun h => absurd rfl h⟩
    | step hp _ ih =>
      obtain ⟨k, hk, hpk, _⟩ := ih
      exact ⟨k + 1, by omega, .child hp hpk, fun _ => by omega⟩
  obtain ⟨i, hi⟩ := below_root_iff.mp ha
  obtain ⟨j, hij, hbj, hlt⟩ := deeper hi hab
  obtain ⟨k, hjk, hak, _⟩ := deeper hbj hba
  have := hi.unique ht hak
  by_contra hne
  have := hlt (Ne.symm hne)
  omega

/-- No node is its own child's descendant. -/
theorem not_below_of_parent (ht : t.Consistent) {p c : NodeId} (hr : t.Below t.root p)
    (hp : t.parent c = some p) : ¬ t.Below c p := by
  intro h
  obtain rfl : p = c := hr.antisymm ht (.of_parent hp) h
  obtain ⟨j, hj⟩ := below_root_iff.mp hr
  have := hj.unique ht (.child hp hj)
  omega

/-- The subtrees of two children have no node in common. -/
theorem siblings_apart (ht : t.Consistent) {p a b n : NodeId} (hr : t.Below t.root p)
    (ha : t.parent a = some p) (hb : t.parent b = some p) (hne : a ≠ b) (han : t.Below a n)
    (hbn : t.Below b n) : False := by
  -- one of the two children lies below the other, and so does its parent
  have side : ∀ {x y : NodeId}, t.parent x = some p → t.parent y = some p → x ≠ y → ¬ t.Below x y := by
    intro x y hx hy hxy h
    obtain ⟨q, hq, hxq⟩ := h.parent (Ne.symm hxy)
    obtain rfl : p = q := Option.some.inj (hy.symm.trans hq)
    exact not_below_of_parent ht hr hx hxq
  rcases han.linear hbn with h | h
  · exact side ha hb hne h
  · exact side hb ha (Ne.symm hne) h

/-! ## The walk -/

theorem descend_mono {k l : Nat} (hkl : k ≤ l) {n : NodeId} (h : t.Grounded k n) :
    t.descend l n = t.descend k n := by
  induction k generalizing l n with
  | zero => exact h.elim
  | succ k ih =>
    obtain ⟨l, rfl⟩ : ∃ m, l = m + 1 := ⟨l - 1, by omega⟩
    simp only [descend, List.cons.injEq, true_and]
    exact List.flatMap_congr fun c hc => ih (by omega) (h c hc)

theorem below_of_mem_descend (ht : t.Consistent) {k : Nat} {r n : NodeId}
    (h : n ∈ t.descend k r) : t.Below r n := by
  induction k generalizing r with
  | zero => simp [descend] at h
  | succ k ih =>
    simp only [descend, List.mem_cons, List.mem_flatMap] at h
    rcases h with rfl | ⟨c, hc, hn⟩
    · exact .refl
    · exact (Below.of_parent ((ht.mem_children r c).mp hc)).trans (ih hn)

theorem mem_descend_self {k : Nat} {n : NodeId} (h : t.Grounded k n) : n ∈ t.descend k n := by
  cases k with
  | zero => exact h.elim
  | succ k => simp [descend]

theorem mem_descend_child {k : Nat} {r p c : NodeId} (hr : t.Grounded k r)
    (hp : p ∈ t.descend k r) (hc : c ∈ t.children p) : c ∈ t.descend k r := by
  induction k generalizing r with
  | zero => exact hr.elim
  | succ k ih =>
    simp only [descend, List.mem_cons, List.mem_flatMap] at hp ⊢
    rcases hp with rfl | ⟨d, hd, hpd⟩
    · exact .inr ⟨c, hc, mem_descend_self (hr c hc)⟩
    · exact .inr ⟨d, hd, ih (hr d hd) hpd⟩

theorem mem_descend_iff (ht : t.Consistent) {k : Nat} {r n : NodeId} (hr : t.Grounded k r) :
    n ∈ t.descend k r ↔ t.Below r n := by
  refine ⟨below_of_mem_descend ht, fun h => ?_⟩
  induction h with
  | refl => exact mem_descend_self hr
  | step hp _ ih => exact mem_descend_child hr ih ((ht.mem_children _ _).mpr hp)

theorem mem_walkFrom_iff (ht : t.Consistent) {r n : NodeId} (hr : t.Below t.root r) :
    n ∈ t.walkFrom r ↔ t.Below r n :=
  mem_descend_iff ht (hr.grounded ht)

theorem mem_walk_iff (ht : t.Consistent) {n : NodeId} : n ∈ t.walk ↔ t.Below t.root n :=
  mem_walkFrom_iff ht .refl

theorem lt_size_of_mem_walk (ht : t.Consistent) {n : NodeId} (h : n ∈ t.walk) : n < t.size :=
  ((mem_walk_iff ht).mp h).lt_size ht

/-- The subtree of a node: itself, then the subtrees of its children. -/
theorem walkFrom_eq (ht : t.Consistent) {n : NodeId} (hn : t.Below t.root n) :
    t.walkFrom n = n :: (t.children n).flatMap t.walkFrom := by
  have hg : t.Grounded (t.size + 1) n := (hn.grounded ht).mono (by omega)
  rw [walkFrom, ← descend_mono (Nat.le_succ _) (hn.grounded ht), descend]
  rfl

theorem descend_pairwise (ht : t.Consistent) {k : Nat} {r : NodeId} (hr : t.Below t.root r) :
    (t.descend k r).Pairwise fun a b => ¬ t.Below b a := by
  induction k generalizing r with
  | zero => simp [descend]
  | succ k ih =>
    have hchild : ∀ c ∈ t.children r, t.parent c = some r := fun c hc => (ht.mem_children r c).mp hc
    rw [descend, List.pairwise_cons, List.pairwise_flatMap]
    refine ⟨?_, fun c hc => ih (.step (hchild c hc) hr), ?_⟩
    · intro b hb hbr
      obtain ⟨c, hc, hbc⟩ := List.mem_flatMap.mp hb
      exact not_below_of_parent ht hr (hchild c hc) ((below_of_mem_descend ht hbc).trans hbr)
    · refine (ht.nodup r).imp_of_mem ?_
      intro c d hc hd hne a ha b hb hba
      exact siblings_apart ht hr (hchild c hc) (hchild d hd) hne (below_of_mem_descend ht ha)
        ((below_of_mem_descend ht hb).trans hba)

theorem walkFrom_pairwise (ht : t.Consistent) {r : NodeId} (hr : t.Below t.root r) :
    (t.walkFrom r).Pairwise fun a b => ¬ t.Below b a :=
  descend_pairwise ht hr

theorem walkFrom_nodup (ht : t.Consistent) {r : NodeId} (hr : t.Below t.root r) :
    (t.walkFrom r).Nodup :=
  (walkFrom_pairwise ht hr).imp fun h heq => by subst heq; exact h .refl

theorem walk_nodup (ht : t.Consistent) : t.walk.Nodup := walkFrom_nodup ht .refl

/-! ## Membership, upwards and downwards -/

theorem climb_eq_root {k f : Nat} (ht : t.Consistent) {n : NodeId} (h : t.Hangs k n) (hf : k ≤ f) :
    t.climb f n = t.root := by
  induction h generalizing f with
  | root => cases f <;> simp [climb, ht.root_parent]
  | @child k p c hp _ ih =>
    obtain ⟨f, rfl⟩ : ∃ m, f = m + 1 := ⟨f - 1, by omega⟩
    simp only [climb, hp]
    exact ih (by omega)

theorem below_climb (f : Nat) (n : NodeId) : t.Below (t.climb f n) n := by
  induction f generalizing n with
  | zero => exact .refl
  | succ f ih =>
    cases hp : t.parent n with
    | none => simp only [climb, hp]; exact .refl
    | some p => simp only [climb, hp]; exact .step hp (ih p)

theorem contains_iff_below (ht : t.Consistent) {n : NodeId} :
    t.contains n = true ↔ t.Below t.root n := by
  simp only [contains, Bool.and_eq_true, Bool.not_eq_true', beq_iff_eq, top]
  constructor
  · rintro ⟨_, htop⟩
    have := below_climb (t := t) t.size n
    rwa [htop] at this
  · intro h
    obtain ⟨k, hk⟩ := below_root_iff.mp h
    refine ⟨?_, climb_eq_root ht hk (Nat.le_of_lt (hk.lt_size ht))⟩
    cases h with
    | refl => exact ht.root_removed
    | step hp _ => exact ht.removed_of_parent hp

end DeadCode.Tree
