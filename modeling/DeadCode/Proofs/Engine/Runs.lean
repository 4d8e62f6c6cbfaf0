import DeadCode.Proofs.Engine.Upkeep
import DeadCode.Proofs.Tree.Edited

/-!
Runs only remove. Whatever the tree and the tables hold, and whether it returns or fails, a job of the engine does
nothing to the tree but detach nodes and remove statements (`Engine.run_edited`).
-/

namespace DeadCode

open DeadCode.Tree Workspace

theorem lasting_edited (t : Tree) : Lasting fun w => Edited t w.tree where
  detach hw hok := by
    rw [tree_settle]
    exact .detach hw hok
  removeStatement hw hok := by
    rw [tree_settle]
    exact .removeStatement hw hok
  record _ _ _ hw := hw

theorem upkeep_edited (t : Tree) (id : AnalysisId) : Upkeep id fun w => Edited t w.tree where
  toLasting := lasting_edited t
  refresh {w} hw := by
    rw [(refresh_frame w id).1]
    exact hw

namespace Job

variable {α : Type}

/-- The job, wherever it stops, has edited the tree by removals only. -/
def OnlyRemoves (j : Job α) : Prop := ∀ (t : Tree) (w : Workspace), Edited t w.tree →
  j.Ends w (fun _ w' => Edited t w'.tree) fun _ w' => Edited t w'.tree

theorem onlyRemoves_runPass : OnlyRemoves runPass := fun t => by
  refine preserves_bind preserves_get fun _ => preserves_bind (fun w hw => ?_) fun p => ?_
  · have hid := upkeep_edited t w.startAnalysis.1
    have hwalk := preserves_traverse hid.enter hid.collect (w.startAnalysis.2.tree.size + 1) {}
      w.startAnalysis.2.tree.root
    exact ends_withAnalysis (hwalk w.startAnalysis.2 hw)
  · refine preserves_bind ((lasting_edited t).removeCandidates p.collector) fun _ => ?_
    exact preserves_bind (preserves_modify fun _ hw => hw) fun _ => preserves_bind preserves_get fun _ =>
      preserves_pure _

theorem onlyRemoves_runPasses (fuel : Nat) : OnlyRemoves (runPasses fuel) := fun t => by
  induction fuel with
  | zero => exact preserves_pure _
  | succ fuel ih =>
    exact preserves_bind (onlyRemoves_runPass t) fun _ => preserves_ite (preserves_pure _) ih

end Job

/-- However a run ends, the tree it leaves came from the one it was given by removals. -/
theorem Engine.run_edited (e : Engine) (w : Workspace) :
    e.run.Ends w (fun _ w' => Edited w.tree w'.tree) fun _ w' => Edited w.tree w'.tree := by
  have h : Job.Preserves (fun u => Edited w.tree u.tree) e.run :=
    Job.preserves_bind (Job.preserves_modify fun _ hu => hu) fun _ => Job.preserves_bind Job.preserves_get fun _ =>
      Job.preserves_bind (Job.onlyRemoves_runPasses _ w.tree) fun _ =>
        Job.preserves_bind Job.preserves_get fun _ => Job.preserves_pure _
  exact h w .refl

theorem Engine.passLimit_ne_zero (e : Engine) (t : Tree) : e.passLimit t ≠ 0 := by
  have hpos := e.maxPasses_pos
  rw [passLimit]
  split
  · omega
  · decide

/-- A run whose first pass counts nothing is that pass, whatever the engine. -/
theorem Engine.run_of_idle (e : Engine) {w w' : Workspace} (h : Job.runPass { w with report := {} } = .ok 0 w') :
    e.run w = .ok w'.report w' := by
  obtain ⟨fuel, hfuel⟩ := Nat.exists_eq_succ_of_ne_zero (e.passLimit_ne_zero w.tree)
  have hpasses : Job.runPasses (e.passLimit w.tree) { w with report := {} } = .ok () w' := by
    rw [hfuel]
    change EStateM.bind Job.runPass _ { w with report := {} } = _
    rw [EStateM.bind, h]
    rfl
  change EStateM.bind (Job.runPasses (e.passLimit w.tree)) _ { w with report := {} } = _
  rw [EStateM.bind, hpasses]
  rfl

end DeadCode
