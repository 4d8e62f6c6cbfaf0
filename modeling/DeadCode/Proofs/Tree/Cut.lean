import Mathlib.Data.List.Nodup
import DeadCode.Proofs.Lists
import DeadCode.Proofs.Tree.Consistent
import DeadCode.Surgery

/-!
What one edit does to the tree. `Cut t t' q n gone`: under `q` the node `n` left with the nodes of `gone`
(`n` itself and perhaps a comma), at most one fresh leaf came in, and nothing else moved. Every edit that
succeeds on a consistent tree is such a cut (`cut_of_detach`, `cut_of_removeStatement`). Main statements:
`Cut.consistent` and `Cut.walk_eq`, which says that the walk loses the subtrees of `gone` and keeps its
order.
-/

namespace DeadCode.Tree

structure Cut (t t' : Tree) (q n : NodeId) (gone : List NodeId) : Prop where
  root : t'.root = t.root
  version : t'.version = t.version + 1
  size_le : t.size ≤ t'.size
  kind_eq : ∀ m < t.size, t'.kind m = t.kind m
  text_eq : ∀ m < t.size, t'.text m = t.text m
  named_eq : ∀ m < t.size, (t'.node m).named = (t.node m).named
  field_eq : ∀ m < t.size, (t'.node m).field = (t.node m).field
  node_mem : n ∈ gone
  parent_of_gone : ∀ g ∈ gone, t.parent g = some q
  parent_gone : ∀ g ∈ gone, t'.parent g = none
  parent_kept : ∀ m < t.size, m ∉ gone → t'.parent m = t.parent m
  removed_kept : ∀ m < t.size, m ∉ gone → (t'.node m).removed = (t.node m).removed
  children_other : ∀ m, m ≠ q → t'.children m = t.children m
  children_old : (t'.children q).filter (· < t.size) = (t.children q).filter (· ∉ gone)
  children_nodup : (t'.children q).Nodup
  fresh_iff : ∀ m, t.size ≤ m → (m ∈ t'.children q ↔ m < t'.size)
  fresh_parent : ∀ m, t.size ≤ m → m < t'.size → t'.parent m = some q
  fresh_kind : ∀ m, t.size ≤ m → m < t'.size → t'.kind m = .emptyStatement
  fresh_removed : ∀ m, t.size ≤ m → (t'.node m).removed = true → t'.size ≤ m

/-- The nodes that leave with `gone`: their subtrees. -/
def offcut (t : Tree) (gone : List NodeId) : List NodeId := gone.flatMap t.walkFrom

variable {t t' : Tree} {q n : NodeId} {gone : List NodeId}

theorem parent_eq_none_of_size_le {m : NodeId} (h : t.size ≤ m) : t.parent m = none := by
  cases hp : t.parent m with
  | none => rfl
  | some p => exact absurd (lt_size_of_parent hp) (not_lt.mpr h)

theorem children_eq_nil_of_size_le {m : NodeId} (h : t.size ≤ m) : t.children m = [] := by
  cases hc : t.children m with
  | nil => rfl
  | cons c cs =>
    exact absurd (lt_size_of_child (t := t) (c := c) (by rw [hc]; exact List.mem_cons_self))
      (not_lt.mpr h)

theorem Consistent.parent_lt (ht : t.Consistent) {p c : NodeId} (h : t.parent c = some p) :
    p < t.size :=
  lt_size_of_child ((ht.mem_children p c).mpr h)

namespace Cut

theorem parent_mem (h : Cut t t' q n gone) : t.parent n = some q := h.parent_of_gone n h.node_mem

theorem root_not_gone (ht : t.Consistent) (h : Cut t t' q n gone) : t.root ∉ gone := by
  intro hg
  have := h.parent_of_gone _ hg
  rw [ht.root_parent] at this
  cases this

theorem mem_children_iff (ht : t.Consistent) (h : Cut t t' q n gone) {p c : NodeId}
    (hc : c < t.size) : c ∈ t'.children p ↔ c ∈ t.children p ∧ c ∉ gone := by
  by_cases hp : p = q
  · subst hp
    have := congrArg (c ∈ ·) h.children_old
    simpa [hc] using this
  · rw [h.children_other p hp]
    refine ⟨fun hm => ⟨hm, fun hg => ?_⟩, fun hm => hm.1⟩
    have h1 := (ht.mem_children p c).mp hm
    rw [h.parent_of_gone c hg] at h1
    exact hp (Option.some.inj h1).symm

theorem children_nil (ht : t.Consistent) (h : Cut t t' q n gone) {m : NodeId} (hm : t.children m = []) :
    t'.children m = [] := by
  rw [h.children_other m, hm]
  rintro rfl
  have := (ht.mem_children m n).mpr h.parent_mem
  rw [hm] at this
  exact List.not_mem_nil this

theorem consistent (ht : t.Consistent) (h : Cut t t' q n gone) : t'.Consistent where
  mem_children p c := by
    rcases lt_or_ge c t.size with hc | hc
    · rw [h.mem_children_iff ht hc, ht.mem_children]
      by_cases hg : c ∈ gone
      · simp [hg, h.parent_gone c hg]
      · simp [hg, h.parent_kept c hc hg]
    · by_cases hp : p = q
      · subst hp
        rw [h.fresh_iff c hc]
        exact ⟨fun hlt => h.fresh_parent c hc hlt, fun hpar => lt_size_of_parent hpar⟩
      · rw [h.children_other p hp, ht.mem_children, parent_eq_none_of_size_le hc]
        refine ⟨fun hn => (by cases hn), fun hpar => ?_⟩
        rw [h.fresh_parent c hc (lt_size_of_parent hpar)] at hpar
        exact absurd (Option.some.inj hpar).symm hp
  nodup p := by
    by_cases hp : p = q
    · subst hp
      exact h.children_nodup
    · rw [h.children_other p hp]
      exact ht.nodup p
  root_parent := by
    rw [h.root, h.parent_kept _ ht.root_lt (h.root_not_gone ht), ht.root_parent]
  root_removed := by
    rw [h.root, h.removed_kept _ ht.root_lt (h.root_not_gone ht), ht.root_removed]
  removed_parent m hm := by
    rcases lt_or_ge m t.size with hlt | hge
    · by_cases hg : m ∈ gone
      · exact h.parent_gone m hg
      · rw [h.parent_kept m hlt hg]
        exact ht.removed_parent m (by rw [← h.removed_kept m hlt hg]; exact hm)
    · exact parent_eq_none_of_size_le (h.fresh_removed m hge hm)

/-! ## What lies below what -/

theorem below_of_below (ht : t.Consistent) (h : Cut t t' q n gone) {a m : NodeId} (hm : m < t.size)
    (hb : t'.Below a m) : t.Below a m := by
  induction hb with
  | refl => exact .refl
  | @step p c hp _ ih =>
    have hg : c ∉ gone := fun hg => by rw [h.parent_gone c hg] at hp; cases hp
    rw [h.parent_kept c hm hg] at hp
    exact .step hp (ih (ht.parent_lt hp))

/-- Links above a node that stays are as before. -/
theorem below_kept (h : Cut t t' q n gone) {a m : NodeId} (hb : t.Below a m)
    (hm : ∀ g ∈ gone, ¬ t.Below g m) : t'.Below a m := by
  induction hb with
  | refl => exact .refl
  | @step p c hp _ ih =>
    have hg : c ∉ gone := fun hg => hm c hg .refl
    refine .step (by rw [h.parent_kept c (lt_size_of_parent hp) hg, hp]) (ih fun g hg hgp => ?_)
    exact hm g hg (.step hp hgp)

theorem not_below_gone (ht : t.Consistent) (h : Cut t t' q n gone) {m g : NodeId}
    (hm : m < t.size) (hb : t'.Below t'.root m) (hg : g ∈ gone) : ¬ t.Below g m := by
  induction hb with
  | refl =>
    intro hgr
    rw [h.root] at hgr
    cases hgr with
    | refl => exact h.root_not_gone ht hg
    | step hp _ => rw [ht.root_parent] at hp; cases hp
  | @step p c hp _ ih =>
    have hc : c ∉ gone := fun hc => by rw [h.parent_gone c hc] at hp; cases hp
    rw [h.parent_kept c hm hc] at hp
    intro hgc
    obtain ⟨p', hp', hgp⟩ := hgc.parent fun he => hc (he ▸ hg)
    rw [hp] at hp'
    cases hp'
    exact ih (ht.parent_lt hp) hgp

/-- A node of old is attached after the cut if it was before and did not leave. -/
theorem below_root_iff (ht : t.Consistent) (h : Cut t t' q n gone) {m : NodeId} (hm : m < t.size) :
    t'.Below t'.root m ↔ t.Below t.root m ∧ ∀ g ∈ gone, ¬ t.Below g m := by
  constructor
  · intro hb
    refine ⟨?_, fun g hg => h.not_below_gone ht hm hb hg⟩
    rw [← h.root]
    exact h.below_of_below ht hm hb
  · rintro ⟨hb, hg⟩
    rw [h.root]
    exact h.below_kept hb hg

/-! ## The walk -/

theorem mem_offcut_iff (ht : t.Consistent) (h : Cut t t' q n gone) (hq : t.Below t.root q)
    {m : NodeId} : m ∈ t.offcut gone ↔ ∃ g ∈ gone, t.Below g m := by
  simp only [offcut, List.mem_flatMap]
  refine exists_congr fun g => and_congr_right fun hg => mem_walkFrom_iff ht ?_
  exact .step (h.parent_of_gone g hg) hq

theorem fresh_leaf (ht : t.Consistent) (h : Cut t t' q n gone) {m : NodeId} (hm : t.size ≤ m) :
    t'.children m = [] := by
  by_cases hq : m = q
  · subst hq
    exact absurd (ht.parent_lt h.parent_mem) (not_lt.mpr hm)
  · rw [h.children_other m hq, children_eq_nil_of_size_le hm]

theorem grounded (ht : t.Consistent) (h : Cut t t' q n gone) {k : Nat} {m : NodeId}
    (hg : t.Grounded k m) : t'.Grounded k m := by
  induction k generalizing m with
  | zero => exact hg
  | succ k ih =>
    intro c hc
    rcases lt_or_ge c t.size with hlt | hge
    · exact ih (hg c ((h.mem_children_iff ht hlt).mp hc).1)
    · have hq : m = q := by
        have := (h.consistent ht).mem_children m c |>.mp hc
        rw [h.fresh_parent c hge (lt_size_of_parent this)] at this
        exact (Option.some.inj this).symm
      subst hq
      -- the fresh leaf stands where the node that left had room
      have hn := hg n ((ht.mem_children m n).mpr h.parent_mem)
      cases k with
      | zero => exact hn.elim
      | succ k => intro d hd; rw [h.fresh_leaf ht hge] at hd; simp at hd

theorem descend_eq (ht : t.Consistent) (h : Cut t t' q n gone) (hq : t.Below t.root q) {k : Nat}
    {m : NodeId} (hm : t.Below t.root m) (hoff : m ∉ t.offcut gone) :
    (t'.descend k m).filter (· < t.size) = (t.descend k m).filter (· ∉ t.offcut gone) := by
  induction k generalizing m with
  | zero => simp [descend]
  | succ k ih =>
    have hlt : m < t.size := hm.lt_size ht
    have hchild : ∀ c ∈ t.children m, t.Below t.root c := fun c hc =>
      .step ((ht.mem_children m c).mp hc) hm
    have old : ∀ c ∈ t.children m, c ∉ gone →
        (t'.descend k c).filter (· < t.size) = (t.descend k c).filter (· ∉ t.offcut gone) := by
      intro c hc hg
      refine ih (hchild c hc) fun hcoff => ?_
      obtain ⟨g, hgg, hb⟩ := (h.mem_offcut_iff ht hq).mp hcoff
      obtain ⟨p, hp, hgp⟩ := hb.parent fun he => hg (he ▸ hgg)
      rw [(ht.mem_children m c).mp hc] at hp
      cases hp
      exact hoff ((h.mem_offcut_iff ht hq).mpr ⟨g, hgg, hgp⟩)
    have left : ∀ c ∈ gone, (t.descend k c).filter (· ∉ t.offcut gone) = [] := by
      intro c hc
      refine List.filter_eq_nil_iff.mpr fun x hx => ?_
      simpa using (h.mem_offcut_iff ht hq).mpr ⟨c, hc, below_of_mem_descend ht hx⟩
    have fresh : ∀ c, t.size ≤ c → (t'.descend k c).filter (· < t.size) = [] := by
      intro c hc
      cases k with
      | zero => simp [descend]
      | succ k => simp [descend, h.fresh_leaf ht hc, not_lt.mpr hc]
    have children : (t'.children m).filter (· < t.size) = (t.children m).filter (· ∉ gone) := by
      by_cases hmq : m = q
      · subst hmq
        exact h.children_old
      · rw [h.children_other m hmq]
        refine List.filter_congr fun c hc => ?_
        have hcm := (ht.mem_children m c).mp hc
        have hg : c ∉ gone := fun hg => hmq (Option.some.inj
          ((h.parent_of_gone c hg).symm.trans hcm)).symm
        simp [lt_size_of_parent hcm, hg]
    rw [descend, descend, List.filter_cons, List.filter_cons, List.filter_flatMap,
      List.filter_flatMap,
      ← Lists.flatMap_filter_of_nil (p := (decide <| · < t.size))
        (fun c _ hc => fresh c (not_lt.mp (of_decide_eq_false hc))),
      ← Lists.flatMap_filter_of_nil (p := (decide <| · ∉ gone)) (l := t.children m)
        (fun c _ hc => left c (not_not.mp (of_decide_eq_false hc))), children]
    simp only [hlt, hoff, decide_true, not_false_eq_true, ↓reduceIte, List.cons.injEq, true_and]
    exact List.flatMap_congr fun c hc => old c (List.mem_filter.mp hc).1
      (by simpa using (List.mem_filter.mp hc).2)

/-- The walk loses the subtrees that left and keeps its order; a fresh leaf may have come in. -/
theorem walk_eq (ht : t.Consistent) (h : Cut t t' q n gone) (hq : t.Below t.root q) :
    t'.walk.filter (· < t.size) = t.walk.filter (· ∉ t.offcut gone) := by
  have hg : t'.Grounded t.size t'.root := by
    rw [h.root]
    exact h.grounded ht (Below.refl.grounded ht)
  rw [walk, walkFrom, descend_mono h.size_le hg, h.root]
  refine h.descend_eq ht hq .refl fun hr => ?_
  obtain ⟨g, hgg, hb⟩ := (h.mem_offcut_iff ht hq).mp hr
  cases hb with
  | refl => exact h.root_not_gone ht hgg
  | step hp _ => rw [ht.root_parent] at hp; cases hp

/-- A subtree that left is still whole. -/
theorem walkFrom_gone (ht : t.Consistent) (h : Cut t t' q n gone) (hq : t.Below t.root q) :
    t'.walkFrom n = t.walkFrom n := by
  have hn : t.Below t.root n := .step h.parent_mem hq
  have same : ∀ k m, t.Below n m → t'.descend k m = t.descend k m := by
    intro k
    induction k with
    | zero => intro m _; rfl
    | succ k ih =>
      intro m hm
      have hmq : m ≠ q := by
        rintro rfl
        have := Below.antisymm ht hn hm (.of_parent h.parent_mem)
        subst this
        obtain ⟨j, hj⟩ := Tree.below_root_iff.mp hn
        have := hj.unique ht (.child h.parent_mem hj)
        omega
      rw [descend, descend, h.children_other m hmq]
      simp only [List.cons.injEq, true_and]
      exact List.flatMap_congr fun c hc => ih c (.step ((ht.mem_children m c).mp hc) hm)
  have hg := hn.grounded ht
  rw [walkFrom, walkFrom, descend_mono h.size_le (h.grounded ht hg)]
  exact same _ _ .refl

end Cut
end DeadCode.Tree
