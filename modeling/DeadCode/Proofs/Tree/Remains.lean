import DeadCode.Dangling
import DeadCode.Proofs.Tree.Edits

/-!
What remains of a tree after any number of edits. `Remains t t'` says it of the nodes of `t` that are still
attached in `t'`, whatever was cut: they are the nodes they were, and stand where they stood, in the order in
which they stood. All else in `t'` is empty statements.
-/

namespace DeadCode.Tree

/-- A node of `t` that is attached in `t'`. -/
def kept (t t' : Tree) (m : NodeId) : Bool := decide (m < t.size) && t'.contains m

structure Remains (t t' : Tree) : Prop where
  consistent : t'.Consistent
  size_le : t.size ≤ t'.size
  root : t'.root = t.root
  kind_eq : ∀ m < t.size, t'.kind m = t.kind m
  text_eq : ∀ m < t.size, t'.text m = t.text m
  field_eq : ∀ m < t.size, (t'.node m).field = (t.node m).field
  parent_eq : ∀ m < t.size, t'.Below t'.root m → t'.parent m = t.parent m
  attached : ∀ m < t.size, t'.Below t'.root m → t.Below t.root m
  fresh_kind : ∀ m, t.size ≤ m → m < t'.size → t'.kind m = .emptyStatement
  leaf : ∀ m < t.size, t.children m = [] → t'.children m = []
  fresh_leaf : ∀ m, t.size ≤ m → t'.children m = []
  children_eq : ∀ p, (t'.children p).filter (t.kept t') = (t.children p).filter (t.kept t')

theorem kept_iff_of {t t' : Tree} {m : NodeId} (ht : t'.Consistent) :
    t.kept t' m = true ↔ m < t.size ∧ t'.Below t'.root m := by
  rw [kept, Bool.and_eq_true, decide_eq_true_eq, contains_iff_below ht]

namespace Remains

variable {t t' t'' : Tree} {m a : NodeId}

theorem kept_iff (h : Remains t t') : t.kept t' m = true ↔ m < t.size ∧ t'.Below t'.root m :=
  kept_iff_of h.consistent

theorem refl (ht : t.Consistent) : Remains t t where
  consistent := ht
  size_le := le_rfl
  root := rfl
  kind_eq _ _ := rfl
  text_eq _ _ := rfl
  field_eq _ _ := rfl
  parent_eq _ _ _ := rfl
  attached _ _ h := h
  fresh_kind _ hge hlt := absurd hlt (not_lt.mpr hge)
  leaf _ _ h := h
  fresh_leaf _ hge := children_eq_nil_of_size_le hge
  children_eq _ := rfl

theorem trans (h : Remains t t') (h' : Remains t' t'') : Remains t t'' where
  consistent := h'.consistent
  size_le := h.size_le.trans h'.size_le
  root := h'.root.trans h.root
  kind_eq m hm := (h'.kind_eq m (lt_of_lt_of_le hm h.size_le)).trans (h.kind_eq m hm)
  text_eq m hm := (h'.text_eq m (lt_of_lt_of_le hm h.size_le)).trans (h.text_eq m hm)
  field_eq m hm := (h'.field_eq m (lt_of_lt_of_le hm h.size_le)).trans (h.field_eq m hm)
  parent_eq m hm hb := by
    have hm' := lt_of_lt_of_le hm h.size_le
    exact (h'.parent_eq m hm' hb).trans (h.parent_eq m hm (h'.attached m hm' hb))
  attached m hm hb := h.attached m hm (h'.attached m (lt_of_lt_of_le hm h.size_le) hb)
  fresh_kind m hge hlt := by
    rcases lt_or_ge m t'.size with hm | hm
    · exact (h'.kind_eq m hm).trans (h.fresh_kind m hge hm)
    · exact h'.fresh_kind m hm hlt
  leaf m hm hnil := h'.leaf m (lt_of_lt_of_le hm h.size_le) (h.leaf m hm hnil)
  fresh_leaf m hge := by
    rcases lt_or_ge m t'.size with hm | hm
    · exact h'.leaf m hm (h.fresh_leaf m hge)
    · exact h'.fresh_leaf m hm
  children_eq p := by
    have later : ∀ m, t.kept t'' m = true → t'.kept t'' m = true := fun m hm => by
      obtain ⟨hlt, hb⟩ := (kept_iff_of h'.consistent).mp hm
      exact (kept_iff_of h'.consistent).mpr ⟨lt_of_lt_of_le hlt h.size_le, hb⟩
    have earlier : ∀ m, t.kept t'' m = true → t.kept t' m = true := fun m hm => by
      obtain ⟨hlt, hb⟩ := (kept_iff_of h'.consistent).mp hm
      exact (kept_iff_of h.consistent).mpr ⟨hlt, h'.attached m (lt_of_lt_of_le hlt h.size_le) hb⟩
    calc (t''.children p).filter (t.kept t'')
        = ((t''.children p).filter (t'.kept t'')).filter (t.kept t'') :=
          (Lists.filter_filter_of_imp later _).symm
      _ = (t'.children p).filter (t.kept t'') := by rw [h'.children_eq, Lists.filter_filter_of_imp later]
      _ = ((t'.children p).filter (t.kept t')).filter (t.kept t'') :=
          (Lists.filter_filter_of_imp earlier _).symm
      _ = (t.children p).filter (t.kept t'') := by rw [h.children_eq, Lists.filter_filter_of_imp earlier]

/-- All that is attached was attached before, but for empty statements. -/
theorem old (h : Remains t t') (hroot : t'.Below t'.root m) (hk : t'.kind m ≠ .emptyStatement) :
    m < t.size ∧ t.Below t.root m ∧ t.kind m = t'.kind m := by
  have hlt : m < t.size := by
    by_contra hge
    exact hk (h.fresh_kind m (not_lt.mp hge) (hroot.lt_size h.consistent))
  exact ⟨hlt, h.attached m hlt hroot, (h.kind_eq m hlt).symm⟩

/-- The way down to a node that remains is as it was. -/
theorem below (h : Remains t t') (ht : t.Consistent) (hm : m < t.size) (hroot : t'.Below t'.root m)
    (hb : t'.Below a m) : t.Below a m := by
  induction hb with
  | refl => exact .refl
  | @step p c hp _ ih =>
    have hpt : t.parent c = some p := (h.parent_eq c hm hroot) ▸ hp
    exact .step hpt (ih (ht.parent_lt hpt) (hroot.of_child h.consistent hp))

theorem below_of_below (h : Remains t t') (ht : t.Consistent) (hm : m < t.size) (hroot : t'.Below t'.root m)
    (hb : t.Below a m) : t'.Below a m ∧ t'.Below t'.root a := by
  induction hb with
  | refl => exact ⟨.refl, hroot⟩
  | @step p c hp _ ih =>
    have hpt : t'.parent c = some p := (h.parent_eq c hm hroot).trans hp
    obtain ⟨hpa, ha⟩ := ih (ht.parent_lt hp) (hroot.of_child h.consistent hpt)
    exact ⟨.step hpt hpa, ha⟩

/-- A node that stays is the target of an assignment if it was. -/
theorem isAssignmentTarget_eq (h : Remains t t') (ht : t.Consistent) (hm : m < t.size)
    (hroot : t'.Below t'.root m) : t'.isAssignmentTarget m = t.isAssignmentTarget m := by
  unfold isAssignmentTarget
  rw [h.parent_eq m hm hroot, h.field_eq m hm]
  cases hp : t.parent m with
  | none => rfl
  | some p =>
    dsimp only
    rw [h.kind_eq p (ht.parent_lt hp)]

/-- Of a subtree whose top is gone nothing is left. -/
theorem descend_kept (h : Remains t t') (ht : t.Consistent) (ha : t.kept t' a = false) (fuel : Nat) :
    (t.descend fuel a).filter (t.kept t') = [] := by
  refine List.filter_eq_nil_iff.mpr fun m hm hk => ?_
  obtain ⟨hlt, hroot⟩ := h.kept_iff.mp hk
  have hb := below_of_mem_descend ht hm
  have halt : a < t.size := by
    by_cases hma : m = a
    · exact hma ▸ hlt
    · obtain ⟨c, hc, _⟩ := hb.child hma
      exact ht.parent_lt hc
  rw [h.kept_iff.mpr ⟨halt, (h.below_of_below ht hlt hroot hb).2⟩] at ha
  cases ha

theorem descend_eq (h : Remains t t') (ht : t.Consistent) (fuel : Nat) (ha : t.kept t' a = true) :
    (t'.descend fuel a).filter (t.kept t') = (t.descend fuel a).filter (t.kept t') := by
  induction fuel generalizing a with
  | zero => rfl
  | succ fuel ih =>
    obtain ⟨_, hroot⟩ := h.kept_iff.mp ha
    -- a member that is new is a leaf
    have hnew : ∀ c ∈ t'.children a, t.kept t' c = false → (t'.descend fuel c).filter (t.kept t') = [] := by
      intro c hc hk
      have hge : t.size ≤ c := by
        by_contra hlt
        have hattached : t'.Below t'.root c := .step ((h.consistent.mem_children a c).mp hc) hroot
        rw [h.kept_iff.mpr ⟨not_le.mp hlt, hattached⟩] at hk
        cases hk
      cases fuel with
      | zero => rfl
      | succ fuel => simp [descend, h.fresh_leaf c hge, hk]
    rw [descend, descend, List.filter_cons_of_pos ha, List.filter_cons_of_pos ha, List.filter_flatMap,
      List.filter_flatMap, ← Lists.flatMap_filter_of_nil hnew,
      ← Lists.flatMap_filter_of_nil fun c _ hk => h.descend_kept ht hk fuel, h.children_eq]
    exact congrArg (a :: ·) (List.flatMap_congr fun c hc => ih (List.mem_filter.mp hc).2)

/-- What is left of the walk has kept its order. -/
theorem walk_eq (h : Remains t t') (ht : t.Consistent) :
    t'.walk.filter (t.kept t') = t.walk.filter (t.kept t') := by
  have hroot : t.kept t' t.root = true := h.kept_iff.mpr ⟨ht.root_lt, h.root ▸ .refl⟩
  rw [walk, walkFrom, h.root, h.descend_eq ht _ hroot, walk, walkFrom,
    descend_mono h.size_le (Below.refl.grounded ht)]

end Remains

theorem Cut.remains {t t' : Tree} {q n : NodeId} {gone : List NodeId} (ht : t.Consistent)
    (h : Cut t t' q n gone) : Remains t t' where
  consistent := h.consistent ht
  size_le := h.size_le
  root := h.root
  kind_eq := h.kind_eq
  text_eq := h.text_eq
  field_eq := h.field_eq
  parent_eq _ hm hb := h.parent_kept _ hm fun hg => h.not_below_gone ht hm hb hg .refl
  attached m hm hb := ((h.below_root_iff ht hm).mp hb).1
  fresh_kind := h.fresh_kind
  leaf _ _ hnil := h.children_nil ht hnil
  fresh_leaf _ hge := h.fresh_leaf ht hge
  children_eq p := by
    by_cases hp : p = q
    · have hkept := fun m => kept_iff_of (t := t) (m := m) (h.consistent ht)
      have hold : ∀ m, t.kept t' m = true → decide (m < t.size) = true := fun m hm => by
        simpa using ((hkept m).mp hm).1
      have hstay : ∀ m, t.kept t' m = true → decide (m ∉ gone) = true := fun m hm => by
        obtain ⟨hlt, hb⟩ := (hkept m).mp hm
        simpa using fun hg => h.not_below_gone ht hlt hb hg .refl
      rw [hp, ← Lists.filter_filter_of_imp hold, h.children_old, Lists.filter_filter_of_imp hstay]
    · rw [h.children_other p hp]

/-- Every statement cut is a cut. -/
theorem StatementCut.cut {t t' : Tree} {q n : NodeId} (h : StatementCut t t' q n) :
    ∃ gone, Cut t t' q n gone := by
  rcases h with ⟨_, gone, hd⟩ | ⟨_, hr⟩
  · exact ⟨gone, hd.toCut⟩
  · exact ⟨[n], hr.toCut⟩

end DeadCode.Tree
