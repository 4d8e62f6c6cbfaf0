import DeadCode.Engine
import DeadCode.Proofs.Engine.Jobs
import DeadCode.Proofs.Tree.Remains

/-!
What a walk visits although the tree is edited under it. Each node that is still attached at any later time was
visited, once, and in the order of the tree in which the walk began (`ends_traverse_visits`).
-/

namespace DeadCode.Job

open DeadCode.Tree

variable {σ : Type} {seen : σ → List NodeId} {I : σ → Workspace → Prop} {K : NodeId → σ → Workspace → Prop}
  {E : SurgeryError → Workspace → Prop} {enter collect : NodeId → σ → Job σ} {t₀ : Tree}

/-- From `s` on the walk saw what is left of the nodes `ns`. -/
def Saw (t₀ : Tree) (seen : σ → List NodeId) (ns : List NodeId) (s s' : σ) (w' : Workspace) : Prop :=
  ∃ new, seen s' = seen s ++ new ∧
    ∀ t, Remains w'.tree t → new.filter (t₀.kept t) = ns.filter (t₀.kept t)

theorem Saw.trans {ms ns : List NodeId} {s s₁ s₂ : σ} {w₁ w₂ : Workspace} (h : Saw t₀ seen ms s s₁ w₁)
    (h' : Saw t₀ seen ns s₁ s₂ w₂) (hr : Remains w₁.tree w₂.tree) : Saw t₀ seen (ms ++ ns) s s₂ w₂ := by
  obtain ⟨new, hnew, hall⟩ := h
  obtain ⟨new', hnew', hall'⟩ := h'
  refine ⟨new ++ new', by rw [hnew', hnew, List.append_assoc], fun t ht => ?_⟩
  rw [List.filter_append, List.filter_append, hall t (hr.trans ht), hall' t ht]

/-- A node that has left, with all below it, need not be seen. -/
theorem Saw.of_left (ht₀ : t₀.Consistent) {s : σ} {w : Workspace} (hr : Remains t₀ w.tree) {n : NodeId}
    (hn : w.tree.contains n = false) (fuel : Nat) : Saw t₀ seen (t₀.descend fuel n) s s w := by
  refine ⟨[], (List.append_nil _).symm, fun t ht => ?_⟩
  refine ((hr.trans ht).descend_kept ht₀ ?_ fuel).symm
  by_contra hk
  obtain ⟨hlt, hroot⟩ := (hr.trans ht).kept_iff.mp (by simpa using hk)
  have := ht.attached n (lt_of_lt_of_le hlt hr.size_le) hroot
  rw [(contains_iff_below hr.consistent).mpr this] at hn
  cases hn

/-- The children that a node has at its visit stand for those it had at the start. -/
theorem filter_children (ht₀ : t₀.Consistent) {t t' : Tree} (hr : Remains t₀ t) (hr' : Remains t t')
    (n : NodeId) (fuel : Nat) : ((t.children n).flatMap (t₀.descend fuel)).filter (t₀.kept t') =
      ((t₀.children n).flatMap (t₀.descend fuel)).filter (t₀.kept t') := by
  have hall := hr.trans hr'
  have hnil : ∀ c, t₀.kept t' c = false → (t₀.descend fuel c).filter (t₀.kept t') = [] :=
    fun c hc => hall.descend_kept ht₀ hc fuel
  have hearlier : ∀ m, t₀.kept t' m = true → t₀.kept t m = true := fun m hm => by
    obtain ⟨hlt, hb⟩ := hall.kept_iff.mp hm
    exact hr.kept_iff.mpr ⟨hlt, hr'.attached m (lt_of_lt_of_le hlt hr.size_le) hb⟩
  rw [List.filter_flatMap, List.filter_flatMap, ← Lists.flatMap_filter_of_nil fun c _ => hnil c,
    ← Lists.flatMap_filter_of_nil (l := t₀.children n) fun c _ => hnil c,
    ← Lists.filter_filter_of_imp hearlier, hr.children_eq, Lists.filter_filter_of_imp hearlier]

/-- The state after a step from `s` on, in which the walk saw what is left of `ns`. -/
def Seen (t₀ : Tree) (seen : σ → List NodeId) (I : σ → Workspace → Prop) (ns : List NodeId) (s : σ) (w : Workspace)
    (s' : σ) (w' : Workspace) : Prop :=
  I s' w' ∧ Remains w.tree w'.tree ∧ Saw t₀ seen ns s s' w'

theorem Seen.nil {s : σ} {w : Workspace} (hI : ∀ s w, I s w → Remains t₀ w.tree) (hs : I s w) :
    Seen t₀ seen I [] s w s w :=
  ⟨hs, .refl (hI s w hs).consistent, [], (List.append_nil _).symm, fun _ _ => rfl⟩

theorem Seen.trans {ms ns : List NodeId} {s s₁ s₂ : σ} {w w₁ w₂ : Workspace}
    (h : Seen t₀ seen I ms s w s₁ w₁) (h' : Seen t₀ seen I ns s₁ w₁ s₂ w₂) :
    Seen t₀ seen I (ms ++ ns) s w s₂ w₂ :=
  ⟨h'.1, h.2.1.trans h'.2.1, h.2.2.trans h'.2.2 h'.2.1⟩

/-- One subtree after the other. -/
theorem ends_foldlM_visits (hI : ∀ s w, I s w → Remains t₀ w.tree) {fuel : Nat} {f : σ → NodeId → Job σ}
    (hf : ∀ {s : σ} {w : Workspace} {n : NodeId}, I s w →
      (f s n).Ends w (Seen t₀ seen I (t₀.descend fuel n) s w) E) (l : List NodeId) :
    ∀ {s : σ} {w : Workspace}, I s w →
      (l.foldlM f s).Ends w (Seen t₀ seen I (l.flatMap (t₀.descend fuel)) s w) E := by
  induction l with
  | nil => exact fun hs => .nil hI hs
  | cons c l ih =>
    intro s w hs
    rw [List.foldlM_cons, ends_bind]
    refine (hf hs).imp fun s₁ w₁ h₁ => ?_
    exact (ih h₁.1).imp fun s₂ w₂ h₂ => h₁.trans h₂

/-- A walk sees what is left of the subtree, in order. `K` is what entering a node leaves for its visit. -/
theorem ends_traverse_visits (ht₀ : t₀.Consistent) (hI : ∀ s w, I s w → Remains t₀ w.tree)
    (henter : ∀ n s w, I s w → w.tree.contains n = true → (enter n s).Ends w (fun s' w' =>
      I s' w' ∧ Remains w.tree w'.tree ∧ seen s' = seen s ∧ K n s' w') E)
    (hcollect : ∀ n s w, I s w → K n s w → w.tree.contains n = true → (collect n s).Ends w (fun s' w' =>
      I s' w' ∧ Remains w.tree w'.tree ∧ seen s' = seen s ++ [n]) E)
    (fuel : Nat) : ∀ {s : σ} {w : Workspace} {n : NodeId}, I s w →
      (traverse enter collect fuel s n).Ends w (Seen t₀ seen I (t₀.descend fuel n) s w) E := by
  induction fuel with
  | zero => exact fun hs => .nil hI hs
  | succ fuel ih =>
    intro s w n hs
    rw [traverse, ends_bind, ends_get]
    refine ends_ite (fun hout => ?_) fun hin => ?_
    · have hr := hI s w hs
      exact ⟨hs, .refl hr.consistent, .of_left ht₀ hr (by simpa using hout) _⟩
    rw [ends_bind]
    refine (henter n s w hs (by simpa using hin)).imp fun s₁ w₁ h₁ => ?_
    obtain ⟨hs₁, hr₁, hseen₁, hK⟩ := h₁
    rw [ends_bind, ends_get]
    refine ends_ite (fun hout => ?_) fun hin₁ => ?_
    · obtain ⟨new, hnew, hall⟩ : Saw t₀ seen (t₀.descend (fuel + 1) n) s₁ s₁ w₁ :=
        .of_left ht₀ (hI s₁ w₁ hs₁) (by simpa using hout) _
      exact ⟨hs₁, hr₁, new, by rw [← hseen₁]; exact hnew, hall⟩
    rw [ends_bind]
    refine (hcollect n s₁ w₁ hs₁ hK (by simpa using hin₁)).imp fun s₂ w₂ h₂ => ?_
    obtain ⟨hs₂, hr₂, hseen₂⟩ := h₂
    rw [ends_bind, ends_get]
    refine (ends_foldlM_visits hI ih _ hs₂).imp fun s₃ w₃ h₃ => ?_
    obtain ⟨hs₃, hr₃, new, hnew, hall⟩ := h₃
    refine ⟨hs₃, (hr₁.trans hr₂).trans hr₃, n :: new, ?_, fun t ht => ?_⟩
    · rw [hnew, hseen₂, hseen₁, List.append_assoc, List.singleton_append]
    · have hnew := (hall t ht).trans (filter_children ht₀ (hI s₂ w₂ hs₂) (hr₃.trans ht) n fuel)
      rw [descend, List.filter_cons, List.filter_cons, hnew]

theorem ends_withAnalysis {α : Type} {w : Workspace} {Q : α → Workspace → Prop} {j : AnalysisId → Job α}
    (h : (j w.startAnalysis.1).Ends w.startAnalysis.2
      (fun a w' => Q a (w'.leave (.analysis w.startAnalysis.1)))
      (fun e w' => E e (w'.leave (.analysis w.startAnalysis.1)))) : (withAnalysis j).Ends w Q E := by
  unfold Ends at h ⊢
  simp only [withAnalysis]
  cases hj : j w.startAnalysis.1 w.startAnalysis.2 with
  | ok a w' => rw [hj] at h; exact h
  | error e w' => rw [hj] at h; exact h

end DeadCode.Job
