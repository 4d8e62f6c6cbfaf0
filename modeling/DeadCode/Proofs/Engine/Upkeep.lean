import DeadCode.Engine
import DeadCode.Proofs.Engine.Followers
import DeadCode.Proofs.Engine.Visits

/-!
What a pass keeps. It changes its workspace in four ways: it takes over a tree from which something was
detached, or from which a statement was removed, it records, and it brings its analysis up to date. What the
first three keep (`Lasting`) holds wherever a removal stops, also where it fails; what all four keep
(`Upkeep`) holds wherever the walk stops (`Upkeep.enter`, `Upkeep.collect`).
-/

namespace DeadCode

open DeadCode.Tree Workspace

/-- Removals keep `I`. -/
structure Lasting (I : Workspace → Prop) : Prop where
  detach : ∀ {w t n}, I w → w.tree.detach n = .ok t → I (w.settle t n)
  removeStatement : ∀ {w t n}, I w → w.tree.removeStatement n = .ok (some t) → I (w.settle t n)
  record : ∀ {w} name what n, I w → I (w.record name what n)

/-- So do the queries of the analysis `id`. -/
structure Upkeep (id : AnalysisId) (I : Workspace → Prop) : Prop extends Lasting I where
  refresh : ∀ {w}, I w → I (w.refresh id)

namespace Job

variable {α β σ τ : Type} {I : Workspace → Prop}

/-- The job, wherever it stops, keeps `I`. -/
def Preserves (I : Workspace → Prop) (j : Job α) : Prop :=
  ∀ w, I w → j.Ends w (fun _ => I) fun _ => I

theorem preserves_pure (a : α) : Preserves I (pure a : Job α) := fun _ h => h

theorem preserves_get : Preserves I (get : Job Workspace) := fun _ h => h

theorem preserves_modify {f : Workspace → Workspace} (hf : ∀ w, I w → I (f w)) :
    Preserves I (modify f : Job Unit) := hf

theorem preserves_bind {j : Job α} {f : α → Job β} (hj : Preserves I j) (hf : ∀ a, Preserves I (f a)) :
    Preserves I (j >>= f) := fun w h => by
  rw [ends_bind]
  exact (hj w h).imp fun a w' h' => hf a w' h'

theorem preserves_ite {c : Prop} [Decidable c] {j k : Job α} (hj : Preserves I j) (hk : Preserves I k) :
    Preserves I (if c then j else k) := by
  split
  · exact hj
  · exact hk

theorem preserves_foldlM {f : σ → α → Job σ} (hf : ∀ s a, Preserves I (f s a)) (l : List α) (s : σ) :
    Preserves I (l.foldlM f s) := fun _ h =>
  ends_foldlM (I := fun _ => I) (fun a _ s w hw => hf s a w hw) h

/-- What each visit keeps holds after a walk. -/
theorem ends_traverse {I : σ → Workspace → Prop} {E : SurgeryError → Workspace → Prop}
    {enter collect : NodeId → σ → Job σ} (he : ∀ n s w, I s w → (enter n s).Ends w I E)
    (hc : ∀ n s w, I s w → (collect n s).Ends w I E) (fuel : Nat) : ∀ {s : σ} {w : Workspace} (n : NodeId),
      I s w → (traverse enter collect fuel s n).Ends w I E := by
  induction fuel with
  | zero => exact fun _ hs => hs
  | succ fuel ih =>
    intro s w n hs
    rw [traverse, ends_bind, ends_get]
    refine ends_ite (fun _ => hs) fun _ => ?_
    rw [ends_bind]
    refine (he n s w hs).imp fun s₁ w₁ hs₁ => ?_
    rw [ends_bind, ends_get]
    refine ends_ite (fun _ => hs₁) fun _ => ?_
    rw [ends_bind]
    refine (hc n s₁ w₁ hs₁).imp fun s₂ w₂ hs₂ => ?_
    rw [ends_bind, ends_get]
    exact ends_foldlM (fun c _ s w hs => ih c hs) hs₂

theorem preserves_traverse {enter collect : NodeId → σ → Job σ} (he : ∀ n s, Preserves I (enter n s))
    (hc : ∀ n s, Preserves I (collect n s)) (fuel : Nat) (s : σ) (n : NodeId) :
    Preserves I (traverse enter collect fuel s n) := fun _ hw =>
  ends_traverse (I := fun _ => I) (fun n s w => he n s w) (fun n s w => hc n s w) fuel n hw

end Job

namespace Lasting

open Job

variable {I : Workspace → Prop} (h : Lasting I)

include h

/-! ## Surgery -/

theorem detached (n : NodeId) : Preserves I (Job.detach n) := fun w hw => by
  rw [Job.detach, ends_bind, ends_get]
  split
  · exact hw
  · rename_i t ht
    rw [ends_bind, ends_modify, ends_pure]
    exact h.detach hw ht

theorem statement (n : NodeId) : Preserves I (Job.removeStatement n) := fun w hw => by
  rw [Job.removeStatement, ends_bind, ends_get]
  split
  · exact hw
  · exact hw
  · rename_i t ht
    rw [ends_bind, ends_modify, ends_pure]
    exact h.removeStatement hw ht

theorem listMember (n : NodeId) : Preserves I (removeListMember n) := by
  refine preserves_bind preserves_get fun _ => preserves_bind (h.detached n) fun _ => ?_
  split
  · rename_i c _
    refine preserves_bind preserves_get fun _ => ?_
    dsimp only
    split
    · refine preserves_bind (h.detached c) fun _ => ?_
      split
      · refine preserves_bind preserves_get fun _ => ?_
        split
        · exact preserves_bind (h.detached _) fun _ => preserves_pure _
        · exact preserves_pure _
      · exact preserves_pure _
    · exact preserves_pure _
  · exact preserves_pure _

theorem recorded (name : String) (what : Removed) (n : NodeId) :
    Preserves I (modify (·.record name what n) : Job Unit) := preserves_modify fun _ => h.record name what n

/-! ## Reductions and candidates -/

theorem removeDeclarator (id : AnalysisId) (b : Binding) : Preserves I (Job.removeDeclarator id b) := by
  refine preserves_bind preserves_get fun _ => preserves_ite (preserves_pure _) ?_
  split
  · exact preserves_pure _
  · refine preserves_ite ?_ ?_
    · refine preserves_bind (h.statement _) fun _ => preserves_ite ?_ (preserves_pure _)
      exact preserves_bind (h.recorded _ _ _) fun _ => preserves_pure _
    · refine preserves_bind (h.listMember _) fun _ => ?_
      exact preserves_bind (h.recorded _ _ _) fun _ => preserves_pure _

theorem removeFunction (b : Binding) : Preserves I (Job.removeFunction b) := by
  refine preserves_bind (h.statement _) fun _ => preserves_ite ?_ (preserves_pure _)
  exact preserves_bind (h.recorded _ _ _) fun _ => preserves_pure _

theorem removeImport (b : Binding) : Preserves I (Job.removeImport b) :=
  preserves_bind (h.listMember _) fun _ => preserves_bind (h.recorded _ _ _) fun _ => preserves_pure _

theorem removeBinding (id : AnalysisId) (b : Binding) : Preserves I (Job.removeBinding id b) := by
  refine preserves_ite (preserves_pure _) (preserves_bind preserves_get fun _ => ?_)
  refine preserves_ite (preserves_pure _) ?_
  cases b.construct with
  | declarator => exact h.removeDeclarator id b
  | function => exact h.removeFunction b
  | importSpecifier => exact h.removeImport b
  | importDefault => exact h.removeImport b
  | other => exact preserves_pure _

theorem reduceScope (id : AnalysisId) (s : ScopeId) : Preserves I (Job.reduceScope id s) :=
  preserves_bind preserves_get fun _ => preserves_foldlM (fun _ _ =>
    preserves_bind (h.removeBinding id _) fun _ => preserves_pure _) _ _

theorem reduce (id : AnalysisId) (s : ScopeId) (settled : Settled) : Preserves I (Job.reduce id s settled) := by
  refine preserves_bind preserves_get fun _ => preserves_ite (preserves_pure _) ?_
  refine preserves_bind (h.reduceScope id s) fun _ => preserves_ite ?_ (preserves_pure _)
  exact preserves_bind preserves_get fun _ => preserves_pure _

theorem removeCandidate (name : String) (n : NodeId) : Preserves I (Job.removeCandidate name n) := by
  refine preserves_bind preserves_get fun _ => ?_
  dsimp only
  split
  · exact preserves_pure _
  · refine preserves_ite (preserves_pure _) ?_
    refine preserves_bind (h.statement _) fun _ => preserves_ite ?_ (preserves_pure _)
    exact preserves_bind (h.recorded _ _ _) fun _ => preserves_pure _

theorem removeCandidates (c : Collector) : Preserves I (Job.removeCandidates c) := by
  rw [Job.removeCandidates]
  refine preserves_foldlM (fun _ e => ?_) _ _
  exact preserves_bind (h.removeCandidate e.1 e.2) fun _ => preserves_pure _

end Lasting

/-! ## The walk -/

namespace Upkeep

open Job

variable {id : AnalysisId} {I : Workspace → Prop} (h : Upkeep id I)

include h

theorem scopeFor (n : NodeId) : Preserves I (Job.scopeFor id n) :=
  preserves_bind (preserves_modify fun _ => h.refresh) fun _ =>
    preserves_bind preserves_get fun _ => preserves_pure _

theorem enter (n : NodeId) (p : Pass) : Preserves I (Job.enter id n p) :=
  preserves_bind (h.scopeFor n) fun s => preserves_bind (h.reduce id s p.settled) fun _ => preserves_pure _

theorem collect (n : NodeId) (p : Pass) : Preserves I (Job.collect id n p) := by
  refine preserves_bind preserves_get fun _ => preserves_ite ?_ ?_
  · exact preserves_bind (h.scopeFor n) fun _ => preserves_bind preserves_get fun _ => preserves_pure _
  · exact preserves_ite (preserves_pure _) (preserves_pure _)

end Upkeep

end DeadCode
