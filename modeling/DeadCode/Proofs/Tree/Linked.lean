import DeadCode.Proofs.Tree.Cut

/-!
What hangs on the root. A tree is `Linked` if every node that can be reached from the root through child lists stands
in one of them, once, and knows which. Nothing is said of the nodes that left. `Regrafts` is what an edit does to the
links: under one node some members give way to new ones. Main statements: `Regrafts.linked`, and `Regrafts.reaches_iff`,
which says that the subtrees of those members can no longer be reached, and all else can.
-/

namespace DeadCode.Tree

/-- `n` can be reached from `r` through child lists. -/
inductive Reaches (t : Tree) (r : NodeId) : NodeId → Prop
  | refl : Reaches t r r
  | child {p c : NodeId} : Reaches t r p → c ∈ t.children p → Reaches t r c

/-- Each node that can be reached through a child list stands in that list only, and once; its parent is the node
whose list it is, and it is not marked as removed. The root has no parent. Child lists hold nodes of the store. -/
structure Linked (t : Tree) : Prop where
  root_parent : t.parent t.root = none
  root_removed : (t.node t.root).removed = false
  once : ∀ p c, t.Reaches t.root p → c ∈ t.children p → (t.children p).count c = 1
  only : ∀ p q c, t.Reaches t.root p → c ∈ t.children p → c ∈ t.children q → q = p
  parent_eq : ∀ p c, t.Reaches t.root p → c ∈ t.children p → t.parent c = some p
  removed_eq : ∀ p c, t.Reaches t.root p → c ∈ t.children p → (t.node c).removed = false
  stored : ∀ p c, c ∈ t.children p → c < t.size

/-- Under `p` the members `gone` gave way to the nodes `new`, which are leaves that no list held. -/
structure Regrafts (t t' : Tree) (p : NodeId) (gone new : List NodeId) : Prop where
  root : t'.root = t.root
  size_le : t.size ≤ t'.size
  lt : p < t.size
  listed : ∀ g ∈ gone, g ∈ t.children p
  fresh : ∀ m ∈ new, t.size ≤ m ∧ m < t'.size
  mem_children : ∀ m, m ∈ t'.children p ↔ m ∈ t.children p ∧ m ∉ gone ∨ m ∈ new
  nodup : (t'.children p).Nodup
  children_other : ∀ q, q ≠ p → t'.children q = t.children q
  parent_eq : ∀ m, t'.parent m = if m ∈ gone then none else if m ∈ new then some p else t.parent m
  removed_new : ∀ m ∈ new, (t'.node m).removed = false
  removed_other : ∀ m, m ∉ gone → m ∉ new → (t'.node m).removed = (t.node m).removed

variable {t t' : Tree} {p r m n : NodeId} {gone new : List NodeId}

/-! ## Ways down -/

theorem Reaches.trans {a b c : NodeId} (hab : t.Reaches a b) (hbc : t.Reaches b c) : t.Reaches a c := by
  induction hbc with
  | refl => exact hab
  | child _ hc ih => exact .child ih hc

theorem Reaches.of_child {p c : NodeId} (hc : c ∈ t.children p) : t.Reaches p c := .child .refl hc

/-- Where child lists and parents agree throughout, what lies below a node is what can be reached from it. -/
theorem Consistent.reaches_iff (ht : t.Consistent) : t.Reaches r n ↔ t.Below r n := by
  constructor
  · intro h
    induction h with
    | refl => exact .refl
    | child _ hc ih => exact .step ((ht.mem_children _ _).mp hc) ih
  · intro h
    induction h with
    | refl => exact .refl
    | step hp _ ih => exact .child ih ((ht.mem_children _ _).mpr hp)

theorem Consistent.linked (ht : t.Consistent) : t.Linked where
  root_parent := ht.root_parent
  root_removed := ht.root_removed
  once p c _ hc := List.count_eq_one_of_mem (ht.nodup p) hc
  only p q c _ hp hq := by
    have hsame := ((ht.mem_children q c).mp hq).symm.trans ((ht.mem_children p c).mp hp)
    exact Option.some.inj hsame
  parent_eq p c _ hc := (ht.mem_children p c).mp hc
  removed_eq p c _ hc := ht.removed_of_parent ((ht.mem_children p c).mp hc)
  stored p c hc := lt_size_of_parent ((ht.mem_children p c).mp hc)

namespace Linked

theorem nodup (ht : t.Linked) (hp : t.Reaches t.root p) : (t.children p).Nodup := by
  apply List.nodup_iff_count_le_one.mpr
  intro c
  by_cases hc : c ∈ t.children p
  · exact (ht.once p c hp hc).le
  · simp [List.count_eq_zero.mpr hc]

/-- A node other than the root is a child of one that can be reached. -/
theorem exists_lister (ht : t.Linked) (hn : t.Reaches t.root n) (hne : n ≠ t.root) :
    ∃ p, t.Reaches t.root p ∧ n ∈ t.children p ∧ t.parent n = some p := by
  cases hn with
  | refl => exact absurd rfl hne
  | child hp hc => exact ⟨_, hp, hc, ht.parent_eq _ _ hp hc⟩

theorem root_not_listed (ht : t.Linked) (hp : t.Reaches t.root p) : t.root ∉ t.children p := by
  intro hroot
  have := ht.parent_eq p t.root hp hroot
  rw [ht.root_parent] at this
  cases this

/-- Every way down to a member leads through the node that lists it. -/
theorem reaches_lister (ht : t.Linked) (hp : t.Reaches t.root p) (hn : n ∈ t.children p) (h : t.Reaches r n)
    (hne : n ≠ r) : t.Reaches r p := by
  cases h with
  | refl => exact absurd rfl hne
  | @child q _ hq hn' => exact ht.only p q n hp hn hn' ▸ hq

/-- No way leads from a member back up. -/
theorem not_reaches_of_child (ht : t.Linked) (hp : t.Reaches t.root p) (hn : n ∈ t.children p) :
    ¬ t.Reaches n p := by
  induction hp generalizing n with
  | refl =>
    intro h
    cases h with
    | refl => exact ht.root_not_listed .refl hn
    | child hq hroot => exact ht.root_not_listed ((Reaches.of_child hn).trans hq) hroot
  | @child q c hq hc ih =>
    intro h
    have hcq : t.Reaches c q := by
      by_cases hcn : c = n
      · -- a node in its own list would be its own lister
        subst hcn
        exact ht.only q c c hq hc hn ▸ .refl
      · exact (Reaches.of_child hn).trans (ht.reaches_lister hq hc h hcn)
    exact ih hc hcq

end Linked

/-! ## Regrafting -/

namespace Regrafts

theorem not_fresh (h : Regrafts t t' p gone new) (hm : m < t.size) : m ∉ new := fun hn =>
  absurd (h.fresh m hn).1 (not_le.mpr hm)

/-- New nodes are leaves. -/
theorem children_new (h : Regrafts t t' p gone new) (hm : m ∈ new) : t'.children m = [] := by
  have hle := (h.fresh m hm).1
  rw [h.children_other m, children_eq_nil_of_size_le hle]
  rintro rfl
  exact absurd h.lt (not_lt.mpr hle)

/-- A member that is not new was a member before. -/
theorem mem_old (h : Regrafts t t' p gone new) {q c : NodeId} (hc : c ∈ t'.children q) (hnew : c ∉ new) :
    c ∈ t.children q := by
  by_cases hq : q = p
  · subst hq
    exact (((h.mem_children c).mp hc).resolve_right hnew).1
  · rwa [h.children_other q hq] at hc

/-- A member that is not new was in no list but this one, and did not leave. -/
theorem stays (h : Regrafts t t' p gone new) (ht : t.Linked) {q c : NodeId} (hq : t.Reaches t.root q)
    (hc : c ∈ t'.children q) (hnew : c ∉ new) : c ∉ gone := by
  intro hg
  obtain rfl : p = q := ht.only q p c hq (h.mem_old hc hnew) (h.listed c hg)
  exact (((h.mem_children c).mp hc).resolve_right hnew).2 hg

/-- New nodes stand under `p` only. -/
theorem lister_of_new (h : Regrafts t t' p gone new) (hs : ∀ q c, c ∈ t.children q → c < t.size) {q c : NodeId}
    (hc : c ∈ t'.children q) (hnew : c ∈ new) : q = p := by
  by_contra hq
  rw [h.children_other q hq] at hc
  exact h.not_fresh (hs q c hc) hnew

/-- A way that ends below none of the nodes that left is still there. -/
theorem reaches_kept (h : Regrafts t t' p gone new) (hr : t.Reaches r m) (hm : ∀ g ∈ gone, ¬ t.Reaches g m) :
    t'.Reaches r m := by
  induction hr with
  | refl => exact .refl
  | @child q c _ hc ih =>
    have hq := ih fun g hg hgq => hm g hg (.child hgq hc)
    have hgone : c ∉ gone := fun hg => hm c hg .refl
    refine .child hq ?_
    by_cases hqp : q = p
    · subst hqp
      exact (h.mem_children c).mpr (.inl ⟨hc, hgone⟩)
    · rwa [h.children_other q hqp]

/-- No new ways lead to old nodes. -/
theorem reaches_old (h : Regrafts t t' p gone new) (hr : t'.Reaches r m) (hm : m ∉ new) : t.Reaches r m := by
  induction hr with
  | refl => exact .refl
  | @child q c _ hc ih =>
    have hq : q ∉ new := by
      intro hnew
      rw [h.children_new hnew] at hc
      exact List.not_mem_nil hc
    exact .child (ih hq) (h.mem_old hc hm)

/-- What left takes all with it that lay below it. -/
theorem not_reaches_gone (h : Regrafts t t' p gone new) (ht : t.Linked) (hp : t.Reaches t.root p)
    (hr : t'.Reaches t'.root m) (hm : m ∉ new) : ∀ g ∈ gone, ¬ t.Reaches g m := by
  rw [h.root] at hr
  induction hr with
  | refl =>
    intro g hg hgr
    by_cases hroot : t.root = g
    · exact ht.root_not_listed hp (hroot ▸ h.listed g hg)
    · cases hgr with
      | refl => exact hroot rfl
      | child hq hc => exact ht.root_not_listed ((hp.child (h.listed g hg)).trans hq) hc
  | @child q c hr hc ih =>
    have hq : q ∉ new := by
      intro hnew
      rw [h.children_new hnew] at hc
      exact List.not_mem_nil hc
    have hq' := h.reaches_old hr hq
    intro g hg hgc
    have hne : c ≠ g := fun he => h.stays ht hq' hc hm (he ▸ hg)
    exact ih hq g hg (ht.reaches_lister hq' (h.mem_old hc hm) hgc hne)

theorem reaches_lister (h : Regrafts t t' p gone new) (ht : t.Linked) (hp : t.Reaches t.root p) :
    t'.Reaches t'.root p := by
  rw [h.root]
  apply h.reaches_kept hp
  intro g hg
  exact ht.not_reaches_of_child hp (h.listed g hg)

/-- What can be reached afterwards: all that could be before and lies below none of those that left, and what is
new. -/
theorem reaches_iff (h : Regrafts t t' p gone new) (ht : t.Linked) (hp : t.Reaches t.root p) :
    t'.Reaches t'.root m ↔ t.Reaches t.root m ∧ (∀ g ∈ gone, ¬ t.Reaches g m) ∨ m ∈ new := by
  constructor
  · intro hr
    by_cases hm : m ∈ new
    · exact .inr hm
    · exact .inl ⟨h.root ▸ h.reaches_old hr hm, h.not_reaches_gone ht hp hr hm⟩
  · rintro (⟨hr, hm⟩ | hm)
    · exact h.root ▸ h.reaches_kept hr hm
    · exact .child (h.reaches_lister ht hp) ((h.mem_children m).mpr (.inr hm))

theorem linked (h : Regrafts t t' p gone new) (ht : t.Linked) (hp : t.Reaches t.root p) : t'.Linked := by
  have hroot : t.root ∉ gone := fun hg => ht.root_not_listed hp (h.listed _ hg)
  have hrootlt : t.root < t.size := by
    by_contra hge
    have := ht.root_removed
    simp [node, Array.getD, show ¬ t.root < t.nodes.size from hge, default] at this
  have hrootold : t.root ∉ new := h.not_fresh hrootlt
  -- whoever lists an old node could be reached before
  have old : ∀ {q c}, t'.Reaches t'.root q → c ∈ t'.children q → c ∉ new → t.Reaches t.root q ∧ c ∈ t.children q := by
    intro q c hq hc hnew
    refine ⟨?_, h.mem_old hc hnew⟩
    refine h.root ▸ h.reaches_old hq fun hqnew => ?_
    rw [h.children_new hqnew] at hc
    exact List.not_mem_nil hc
  constructor
  · rw [h.root, h.parent_eq, if_neg hroot, if_neg hrootold, ht.root_parent]
  · rw [h.root, h.removed_other _ hroot hrootold, ht.root_removed]
  · intro q c hq hc
    by_cases hqp : q = p
    · subst hqp
      exact List.count_eq_one_of_mem h.nodup hc
    · have hnew : c ∉ new := fun hnew => hqp (h.lister_of_new ht.stored hc hnew)
      rw [h.children_other q hqp]
      exact ht.once q c (old hq hc hnew).1 (old hq hc hnew).2
  · intro q s c hq hc hc'
    by_cases hnew : c ∈ new
    · rw [h.lister_of_new ht.stored hc hnew, h.lister_of_new ht.stored hc' hnew]
    · exact ht.only q s c (old hq hc hnew).1 (old hq hc hnew).2 (h.mem_old hc' hnew)
  · intro q c hq hc
    rw [h.parent_eq]
    by_cases hnew : c ∈ new
    · have hgone : c ∉ gone := fun hg => h.not_fresh (ht.stored p c (h.listed c hg)) hnew
      rw [if_neg hgone, if_pos hnew, h.lister_of_new ht.stored hc hnew]
    · obtain ⟨hq', hc'⟩ := old hq hc hnew
      rw [if_neg (h.stays ht hq' hc hnew), if_neg hnew, ht.parent_eq q c hq' hc']
  · intro q c hq hc
    by_cases hnew : c ∈ new
    · exact h.removed_new c hnew
    · obtain ⟨hq', hc'⟩ := old hq hc hnew
      rw [h.removed_other c (h.stays ht hq' hc hnew) hnew, ht.removed_eq q c hq' hc']
  · intro q c hc
    by_cases hnew : c ∈ new
    · exact (h.fresh c hnew).2
    · exact lt_of_lt_of_le (ht.stored q c (h.mem_old hc hnew)) h.size_le

/-- Where child lists and parents agreed, they still do. -/
theorem mem_children_iff (h : Regrafts t t' p gone new) (ht : t.Consistent) (q c : NodeId) :
    c ∈ t'.children q ↔ t'.parent c = some q := by
  have hstored : ∀ q c, c ∈ t.children q → c < t.size := fun q c hc =>
    lt_size_of_parent ((ht.mem_children q c).mp hc)
  rw [h.parent_eq]
  by_cases hnew : c ∈ new
  · have hgone : c ∉ gone := fun hg => h.not_fresh (hstored p c (h.listed c hg)) hnew
    rw [if_neg hgone, if_pos hnew]
    constructor
    · intro hc
      rw [h.lister_of_new hstored hc hnew]
    · intro hq
      obtain rfl := Option.some.inj hq
      exact (h.mem_children c).mpr (.inr hnew)
  · rw [if_neg hnew]
    by_cases hgone : c ∈ gone
    · rw [if_pos hgone]
      apply iff_of_false
      · intro hc
        have hq := (ht.mem_children q c).mp (h.mem_old hc hnew)
        have hp := (ht.mem_children p c).mp (h.listed c hgone)
        obtain rfl : p = q := Option.some.inj (hp.symm.trans hq)
        exact (((h.mem_children c).mp hc).resolve_right hnew).2 hgone
      · nofun
    · rw [if_neg hgone, ← ht.mem_children]
      by_cases hq : q = p
      · subst hq
        simp [h.mem_children c, hnew, hgone]
      · rw [h.children_other q hq]

theorem consistent (h : Regrafts t t' p gone new) (ht : t.Consistent) : t'.Consistent := by
  have hroot : t.root ∉ gone := by
    intro hg
    have hp := (ht.mem_children p _).mp (h.listed _ hg)
    rw [ht.root_parent] at hp
    cases hp
  have hrootold : t.root ∉ new := h.not_fresh ht.root_lt
  constructor
  · exact h.mem_children_iff ht
  · intro q
    by_cases hq : q = p
    · subst hq
      exact h.nodup
    · rw [h.children_other q hq]
      exact ht.nodup q
  · rw [h.root, h.parent_eq, if_neg hroot, if_neg hrootold, ht.root_parent]
  · rw [h.root, h.removed_other _ hroot hrootold, ht.root_removed]
  · intro m hm
    rw [h.parent_eq]
    by_cases hgone : m ∈ gone
    · rw [if_pos hgone]
    · have hnew : m ∉ new := by
        intro hnew
        rw [h.removed_new m hnew] at hm
        cases hm
      rw [if_neg hgone, if_neg hnew]
      apply ht.removed_parent
      rwa [h.removed_other m hgone hnew] at hm

end Regrafts
end DeadCode.Tree
