import DeadCode.Proofs.Engine.History
import DeadCode.Proofs.Engine.Upkeep
import DeadCode.Proofs.Names.Checks
import DeadCode.Proofs.Names.Revisions
import DeadCode.Proofs.Tree.Edited

/-!
One crawl in each pass. The analysis of a pass crawls at the first query; from then on each mutation is
followed by a subtraction, so that the version it remembers is that of the tree at every further query
(`Synchronized`). A pass that keeps a log of its queries is the pass itself (`runPass_of_asked`). Main
statement: `runPass_crawls_once`.
-/

namespace DeadCode

open DeadCode.Tree Workspace

/-- How often each analysis has crawled. -/
def Workspace.crawlCounts (w : Workspace) : List Nat := w.analyses.toList.map Analysis.crawls

/-- A query for the scope of a node, and whether it found the analysis stale. -/
structure Query where
  node : NodeId
  stale : Bool
  deriving DecidableEq

/-! ## Passes with a log of their queries -/

namespace Job

def scopeForAsked (id : AnalysisId) (n : NodeId) (qs : List Query) : Job (ScopeId × List Query) := do
  let w ← get
  let s ← scopeFor id n
  return (s, qs ++ [⟨n, (w.analysis id).stale w.tree⟩])

def enterAsked (id : AnalysisId) (n : NodeId) (p : Pass × List Query) : Job (Pass × List Query) := do
  let s ← scopeForAsked id n p.2
  let r ← reduce id s.1 p.1.settled
  return ({ p.1 with settled := r.2 }, s.2)

def collectAsked (id : AnalysisId) (n : NodeId) (p : Pass × List Query) : Job (Pass × List Query) := do
  let t := (← get).tree
  if t.kind n = .assignmentExpression then
    let s ← scopeForAsked id n p.2
    let w ← get
    return ({ p.1 with collector := p.1.collector.visitAssignment w.tree (w.analysis id) s.1 n }, s.2)
  else if (t.kind n).spellsName then
    return ({ p.1 with collector := p.1.collector.visitName t n }, p.2)
  else return p

def walkAsked (id : AnalysisId) : Job (Pass × List Query) := do
  let t := (← get).tree
  traverse (enterAsked id) (collectAsked id) (t.size + 1) ({}, []) t.root

def runPassAsked : Job (Nat × List Query) := do
  let before := (← get).report.total
  let p ← withAnalysis walkAsked
  let _ ← removeCandidates p.1.collector
  modify fun w => { w with report := { w.report with passes := w.report.passes + 1 } }
  return ((← get).report.total - before, p.2)

theorem scopeFor_of_asked (id : AnalysisId) (n : NodeId) (qs : List Query) :
    Prod.fst <$> scopeForAsked id n qs = scopeFor id n :=
  map_watch_eq (scopeFor id n) (f := Prod.fst)
    (g := fun w s _ => (s, qs ++ [⟨n, (w.analysis id).stale w.tree⟩])) fun _ _ _ => rfl

theorem enter_of_asked (id : AnalysisId) (n : NodeId) (p : Pass × List Query) :
    Prod.fst <$> enterAsked id n p = enter id n p.1 :=
  map_bind_eq (scopeFor_of_asked id n p.2) fun _ => map_bind_eq (id_map _) fun _ => map_pure _ _

theorem collect_of_asked (id : AnalysisId) (n : NodeId) (p : Pass × List Query) :
    Prod.fst <$> collectAsked id n p = collect id n p.1 := by
  refine map_bind_eq (id_map _) fun w => map_ite_eq ?_ (map_ite_eq (map_pure _ _) (map_pure _ _))
  exact map_bind_eq (scopeFor_of_asked id n p.2) fun _ => map_bind_eq (id_map _) fun _ => map_pure _ _

/-- The log changes nothing. -/
theorem runPass_of_asked : Prod.fst <$> runPassAsked = runPass := by
  have hwalk : ∀ id, Prod.fst <$> walkAsked id = (do
      let t := (← get).tree
      traverse (enter id) (collect id) (t.size + 1) {} t.root) := fun id =>
    map_bind_eq (id_map _) fun _ => map_traverse_eq (enter_of_asked id) (collect_of_asked id) _ ({}, []) _
  refine map_bind_eq (id_map _) fun w => map_bind_eq (map_withAnalysis_eq hwalk) fun p => ?_
  refine map_bind_eq (id_map _) fun _ => ?_
  exact map_bind_eq (id_map _) fun _ => map_bind_eq (id_map _) fun _ => map_pure _ _

end Job

/-! ## Counting crawls -/

section Counts

variable (w : Workspace)

@[simp] theorem length_crawlCounts : w.crawlCounts.length = w.analyses.size := by simp [crawlCounts]

/-- Each analysis has its place in the list. -/
theorem getElem?_crawlCounts {id : AnalysisId} (hid : id < w.analyses.size) :
    w.crawlCounts[id]? = some (w.analysis id).crawls := by
  simp [crawlCounts, analysis, Array.getD, hid]

theorem crawlCounts_setAnalysis (id : AnalysisId) (a : Analysis) :
    (w.setAnalysis id a).crawlCounts = w.crawlCounts.set id a.crawls := by
  refine List.ext_getElem (by simp [crawlCounts, setAnalysis]) fun i h _ => ?_
  have hi : i < w.analyses.size := by simpa [crawlCounts, setAnalysis] using h
  simp only [crawlCounts, setAnalysis, List.getElem_map, Array.getElem_toList, Array.getElem_modify,
    List.getElem_set]
  split
  · rfl
  · rfl

theorem crawlCounts_settle (t : Tree) (n : NodeId) : (w.settle t n).crawlCounts = w.crawlCounts := by
  have hall : ∀ (fs : List Follower) (w : Workspace), (fs.foldl (tell n) w).crawlCounts = w.crawlCounts := by
    intro fs
    induction fs with
    | nil => exact fun _ => rfl
    | cons f fs ih =>
      intro w
      rw [List.foldl_cons, ih]
      cases f with
      | recorder => rfl
      | analysis i =>
        rw [Workspace.tell, crawlCounts_setAnalysis, (worn_subtract _ _ _).crawls]
        by_cases hi : i < w.analyses.size
        · obtain ⟨_, hget⟩ := List.getElem?_eq_some_iff.mp (getElem?_crawlCounts w hi)
          rw [← hget, List.set_getElem_self]
        · exact List.set_eq_of_length_le (by simpa using hi)
  exact hall w.followers { w with tree := t }

end Counts

/-! ## In step with the tree -/

/-- The analysis started on `w₀` has crawled once and is of the version of the tree, or it has not crawled
yet, which `Idle` allows. -/
structure Synchronized (w₀ : Workspace) (Idle : Prop) (w : Workspace) : Prop where
  consistent : w.tree.Consistent
  followers : w.followers = w₀.followers ++ [.analysis w₀.analyses.size]
  passes : w.report.passes = w₀.report.passes
  stage : (Idle ∧ (w.analysis w₀.analyses.size).version = none ∧ w.crawlCounts = w₀.crawlCounts ++ [0]) ∨
    (w.analysis w₀.analyses.size).version = some w.tree.version ∧ w.crawlCounts = w₀.crawlCounts ++ [1]

variable {w₀ w w' : Workspace} {Idle : Prop}

theorem Tree.cut_of_detach {t u : Tree} {n : NodeId} (ht : t.Consistent) (h : t.detach n = .ok u) :
    ∃ q gone, Cut t u q n gone := by
  obtain ⟨q, gone, hd⟩ := detached_of_detach ht h
  exact ⟨q, gone, hd.toCut⟩

theorem Tree.cut_of_removeStatement {t u : Tree} {n : NodeId} (ht : t.Consistent)
    (h : t.removeStatement n = .ok (some u)) : ∃ q gone, Cut t u q n gone := by
  rcases parent_of_removeStatement h with hd | ⟨q, hp, hr⟩
  · exact cut_of_detach ht hd
  · exact ⟨q, _, (replaced_of_replace ht hp hr).toCut⟩

namespace Synchronized

theorem follows (h : Synchronized w₀ Idle w) : w.Follows w₀.analyses.size := by
  refine ⟨by simp [h.followers], ?_⟩
  have hsize : w.crawlCounts.length = w₀.crawlCounts.length + 1 := by
    rcases h.stage with ⟨_, _, hc⟩ | ⟨_, hc⟩
    · rw [hc, List.length_append, List.length_singleton]
    · rw [hc, List.length_append, List.length_singleton]
  rw [length_crawlCounts, length_crawlCounts] at hsize
  exact hsize ▸ Nat.lt_succ_self _

theorem settle (h : Synchronized w₀ Idle w) {t : Tree} {q n : NodeId} {gone : List NodeId}
    (hcut : Cut w.tree t q n gone) : Synchronized w₀ Idle (w.settle t n) := by
  obtain ⟨htree, hfollowers, _, hreport⟩ := settle_frame w t n
  refine ⟨by rw [htree]; exact hcut.consistent h.consistent, hfollowers.trans h.followers,
    hreport ▸ h.passes, ?_⟩
  rw [crawlCounts_settle, analysis_settle h.follows, htree]
  rcases h.stage with ⟨hidle, hv, hc⟩ | ⟨hv, hc⟩
  · exact .inl ⟨hidle, by rw [version_subtract_none hv, hv], hc⟩
  · exact .inr ⟨version_subtract hcut hv, hc⟩

/-- After a query there is nothing left to crawl for. -/
theorem refresh (h : Synchronized w₀ Idle w) : Synchronized w₀ False (w.refresh w₀.analyses.size) := by
  obtain ⟨htree, hfollowers, _, hreport⟩ := refresh_frame w w₀.analyses.size
  refine ⟨htree ▸ h.consistent, hfollowers.trans h.followers, hreport ▸ h.passes, .inr ?_⟩
  rcases h.stage with ⟨_, hv, hc⟩ | ⟨hv, hc⟩
  · have hstale : (w.analysis w₀.analyses.size).stale w.tree = true := by simp [Analysis.stale, hv]
    have hcrawls : (w.analysis w₀.analyses.size).crawls = 0 := by
      have hget := getElem?_crawlCounts w h.follows.lt
      rw [hc, List.getElem?_append_right (by simp)] at hget
      simpa using hget.symm
    rw [analysis_refresh h.follows.lt, if_pos hstale, htree, Workspace.refresh]
    simp only [hstale, if_true]
    rw [crawlCounts_setAnalysis, hc, List.set_append_right _ _ (by simp)]
    refine ⟨rfl, ?_⟩
    simp [Analysis.crawl, hcrawls]
  · have hfresh : (w.analysis w₀.analyses.size).stale w.tree = false := by simp [Analysis.stale, hv]
    rw [Workspace.refresh]
    simp only [hfresh, Bool.false_eq_true, if_false]
    exact ⟨hv, hc⟩

theorem mono (h : Synchronized w₀ False w) : Synchronized w₀ Idle w :=
  ⟨h.consistent, h.followers, h.passes, h.stage.imp_left fun h => h.1.elim⟩

theorem start (ht : w.tree.Consistent) : Synchronized w True w.startAnalysis.2 where
  consistent := ht
  followers := rfl
  passes := rfl
  stage := by
    refine .inl ⟨trivial, ?_, ?_⟩
    · simp [startAnalysis, join, analysis]
    · simp [startAnalysis, join, crawlCounts]

end Synchronized

theorem upkeep_synchronized (w₀ : Workspace) (Idle : Prop) :
    Upkeep w₀.analyses.size (Synchronized w₀ Idle) where
  detach hw hok := by
    obtain ⟨_, _, hcut⟩ := cut_of_detach hw.consistent hok
    exact hw.settle hcut
  removeStatement hw hok := by
    obtain ⟨_, _, hcut⟩ := cut_of_removeStatement hw.consistent hok
    exact hw.settle hcut
  record name what n hw := ⟨hw.consistent, hw.followers, hw.passes, hw.stage⟩
  refresh hw := hw.refresh.mono

/-! ## The log of a pass -/

/-- The first query was for `n` and found a stale analysis; no other did. -/
def AskedFirst (n : NodeId) (qs : List Query) : Prop :=
  ∃ rest, qs = ⟨n, true⟩ :: rest ∧ ∀ q ∈ rest, q.stale = false

theorem AskedFirst.concat {n m : NodeId} {qs : List Query} (h : AskedFirst n qs) :
    AskedFirst n (qs ++ [⟨m, false⟩]) := by
  obtain ⟨rest, rfl, hrest⟩ := h
  refine ⟨rest ++ [⟨m, false⟩], rfl, fun q hq => ?_⟩
  rcases List.mem_append.mp hq with hq | hq
  · exact hrest q hq
  · rw [List.mem_singleton.mp hq]

namespace Job

variable {n r : NodeId} {qs : List Query} {p : Pass × List Query}

theorem ends_scopeForAsked (h : Synchronized w₀ Idle w) (n : NodeId) (qs : List Query) :
    (scopeForAsked w₀.analyses.size n qs).Ends w (fun s w' => Synchronized w₀ False w' ∧
      s.2 = qs ++ [⟨n, (w.analysis w₀.analyses.size).stale w.tree⟩]) Never :=
  ⟨h.refresh, rfl⟩

theorem Synchronized.not_stale (h : Synchronized w₀ False w) :
    (w.analysis w₀.analyses.size).stale w.tree = false := by
  rcases h.stage with ⟨hidle, _⟩ | ⟨hv, _⟩
  · exact hidle.elim
  · simp [Analysis.stale, hv]

theorem ends_enterAsked (h : Synchronized w₀ Idle w) (n : NodeId) (p : Pass × List Query) :
    (enterAsked w₀.analyses.size n p).Ends w (fun p' w' => Synchronized w₀ False w' ∧
      p'.2 = p.2 ++ [⟨n, (w.analysis w₀.analyses.size).stale w.tree⟩])
      fun _ w' => Synchronized w₀ True w' := by
  rw [enterAsked, ends_bind]
  refine (ends_scopeForAsked h n p.2).mono (fun s w₁ h₁ => ?_) fun _ _ he => he.elim
  obtain ⟨h₁, hlog⟩ := h₁
  rw [ends_bind]
  refine ((upkeep_synchronized w₀ False).reduce _ s.1 p.1.settled w₁ h₁).mono (fun _ w' h' => ?_)
    fun _ _ he => he.mono
  exact ⟨h', hlog⟩

theorem ends_collectAsked (h : Synchronized w₀ False w) (hp : AskedFirst r p.2) (n : NodeId) :
    (collectAsked w₀.analyses.size n p).Ends w
      (fun p' w' => Synchronized w₀ False w' ∧ AskedFirst r p'.2) Never := by
  rw [collectAsked, ends_bind, ends_get]
  refine ends_ite (fun _ => ?_) fun _ => ends_ite (fun _ => ⟨h, hp⟩) fun _ => ⟨h, hp⟩
  rw [ends_bind]
  refine (ends_scopeForAsked h n p.2).imp fun s w₁ h₁ => ?_
  obtain ⟨h₁, hlog⟩ := h₁
  rw [ends_bind, ends_get, ends_pure]
  refine ⟨h₁, ?_⟩
  rw [hlog, Synchronized.not_stale h]
  exact hp.concat

/-- The first node is the root, and it is there to be entered. -/
theorem ends_walkAsked (ht : w.tree.Consistent) : (walkAsked w.analyses.size).Ends w.startAnalysis.2
    (fun p w' => Synchronized w False w' ∧ AskedFirst w.tree.root p.2) fun _ w' => Synchronized w True w' := by
  have hstart := Synchronized.start ht
  have hstale : (w.startAnalysis.2.analysis w.analyses.size).stale w.startAnalysis.2.tree = true := by
    simp [startAnalysis, join, analysis, Analysis.stale]
  have hroot : w.startAnalysis.2.tree.contains w.startAnalysis.2.tree.root = true :=
    (contains_iff_below ht).mpr .refl
  have hcollect : ∀ n (p : Pass × List Query) u, Synchronized w False u ∧ AskedFirst w.tree.root p.2 →
      (collectAsked w.analyses.size n p).Ends u
        (fun p' u' => Synchronized w False u' ∧ AskedFirst w.tree.root p'.2)
        fun _ u' => Synchronized w True u' := fun n p u hu =>
    (ends_collectAsked hu.1 hu.2 n).mono (fun _ _ h => h) fun _ _ he => he.elim
  -- from here on only what is known of the workspace counts, not how it was made
  have hsame : w.startAnalysis.2.tree.root = w.tree.root := rfl
  generalize w.startAnalysis.2 = v at hstart hstale hroot hsame ⊢
  rw [walkAsked, ends_bind, ends_get, traverse, ends_bind, ends_get, hroot, if_neg (by decide), ends_bind]
  refine (ends_enterAsked hstart _ _).imp fun p u hu => ?_
  have hlog : AskedFirst w.tree.root p.2 := ⟨[], by rw [hu.2, hstale, hsame]; rfl, fun q hq => (by cases hq)⟩
  rw [ends_bind, ends_get]
  refine ends_ite (fun _ => ⟨hu.1, hlog⟩) fun _ => ?_
  rw [ends_bind]
  refine (hcollect _ p u ⟨hu.1, hlog⟩).imp fun p₁ u₁ h₁ => ?_
  rw [ends_bind, ends_get]
  refine ends_foldlM (I := fun (p : Pass × List Query) u => Synchronized w False u ∧ AskedFirst w.tree.root p.2)
    (fun c _ p u hu => ends_traverse (fun n p u hu => ?_) hcollect _ c hu) h₁
  refine (ends_enterAsked hu.1 n p).imp fun p' u' h' => ⟨h'.1, ?_⟩
  rw [h'.2, Synchronized.not_stale hu.1]
  exact hu.2.concat

end Job

/-- What candidates leave alone. -/
theorem lasting_left (fs : List Follower) (counts : List Nat) (passes : Nat) : Lasting fun u =>
    u.tree.Consistent ∧ u.followers = fs ∧ u.crawlCounts = counts ∧ u.report.passes = passes := by
  have hsettle : ∀ {w : Workspace} {t : Tree} {q n : NodeId} {gone : List NodeId}, Cut w.tree t q n gone →
      w.tree.Consistent ∧ w.followers = fs ∧ w.crawlCounts = counts ∧ w.report.passes = passes →
      (w.settle t n).tree.Consistent ∧ (w.settle t n).followers = fs ∧ (w.settle t n).crawlCounts = counts ∧
        (w.settle t n).report.passes = passes := by
    intro w t q n gone hcut ⟨ht, hfs, hcounts, hpasses⟩
    obtain ⟨htree, hfollowers, _, hreport⟩ := settle_frame w t n
    refine ⟨?_, hfollowers.trans hfs, (crawlCounts_settle w t n).trans hcounts, hreport ▸ hpasses⟩
    rw [htree]
    exact hcut.consistent ht
  constructor
  · intro w t n hw hok
    obtain ⟨_, _, hcut⟩ := cut_of_detach hw.1 hok
    exact hsettle hcut hw
  · intro w t n hw hok
    obtain ⟨_, _, hcut⟩ := cut_of_removeStatement hw.1 hok
    exact hsettle hcut hw
  · exact fun _ _ _ hw => hw

/-- Every follower that is an analysis is one of the workspace. -/
def Workspace.FollowersStarted (w : Workspace) : Prop := ∀ id, .analysis id ∈ w.followers → id < w.analyses.size

theorem Job.ends_runPassAsked (ht : w.tree.Consistent) (hf : w.FollowersStarted) : runPassAsked.Ends w
    (fun r w' => w'.tree.Consistent ∧ w'.followers = w.followers ∧ w'.crawlCounts = w.crawlCounts ++ [1] ∧
      w'.report.passes = w.report.passes + 1 ∧ AskedFirst w.tree.root r.2)
    fun _ w' => w'.followers = w.followers := by
  have hleave : ∀ {u : Workspace}, u.followers = w.followers ++ [.analysis w.analyses.size] →
      (u.leave (.analysis w.analyses.size)).followers = w.followers := by
    intro u hu
    have hnew : .analysis w.analyses.size ∉ w.followers := fun h => Nat.lt_irrefl _ (hf _ h)
    change u.followers.erase _ = _
    rw [hu, List.erase_append_right _ hnew, List.erase_cons_head, List.append_nil]
  rw [runPassAsked, ends_bind, ends_get, ends_bind]
  refine ends_withAnalysis ((ends_walkAsked ht).mono (fun p u hu => ?_) fun _ u hu => hleave hu.followers)
  obtain ⟨hsync, hlog⟩ := hu
  have hcounts : u.crawlCounts = w.crawlCounts ++ [1] := by
    rcases hsync.stage with ⟨hidle, _⟩ | ⟨_, hcounts⟩
    · exact hidle.elim
    · exact hcounts
  have hcandidates := (lasting_left w.followers (w.crawlCounts ++ [1]) w.report.passes).removeCandidates
    p.1.collector (u.leave (.analysis w.analyses.size))
    ⟨hsync.consistent, hleave hsync.followers, hcounts, hsync.passes⟩
  rw [ends_bind]
  refine hcandidates.mono (fun _ w' hw' => ?_) fun _ w' hw' => hw'.2.1
  obtain ⟨hcons, hfollowers, hcounts, hpasses⟩ := hw'
  rw [ends_bind, ends_modify, ends_bind, ends_get, ends_pure]
  exact ⟨hcons, hfollowers, hcounts, congrArg (· + 1) hpasses, hlog⟩

/-- Each further pass adds one analysis, which crawls once. -/
theorem Job.ends_runPasses_crawls (fuel : Nat) : ∀ {w : Workspace}, w.tree.Consistent → w.FollowersStarted →
    (runPasses fuel).Ends w (fun _ w' => ∃ k, w'.report.passes = w.report.passes + k ∧
      w'.crawlCounts = w.crawlCounts ++ List.replicate k 1) Whatever := by
  induction fuel with
  | zero => exact fun _ _ => ⟨0, rfl, (List.append_nil _).symm⟩
  | succ fuel ih =>
    intro w ht hf
    rw [runPasses, ends_bind, ← runPass_of_asked, ends_map]
    refine (ends_runPassAsked ht hf).mono (fun r u hu => ?_) fun _ _ _ => trivial
    obtain ⟨hcons, hfollowers, hcounts, hpasses, _⟩ := hu
    have hstarted : u.FollowersStarted := fun id hid => by
      have hsize : u.analyses.size = w.analyses.size + 1 := by
        rw [← length_crawlCounts, hcounts, List.length_append, length_crawlCounts, List.length_singleton]
      exact hsize ▸ Nat.lt_succ_of_lt (hf id (hfollowers ▸ hid))
    refine ends_ite (fun _ => ⟨1, hpasses, hcounts⟩) fun _ => ?_
    refine (ih hcons hstarted).imp fun _ w' hw' => ?_
    obtain ⟨k, hk, hcounts'⟩ := hw'
    refine ⟨k + 1, by rw [hk, hpasses]; omega, ?_⟩
    rw [hcounts', hcounts, List.append_assoc, List.replicate_succ]
    rfl

/-- In a pass that returns, its own analysis crawls once, at the first query, and no other one does; whether it
returns or fails, it leaves the followers as they were. A run crawls once for each pass that it reports. -/
theorem runPass_crawls_once (w : Workspace) (ht : w.tree.Consistent) (hf : w.FollowersStarted) :
    (∀ k w', Job.runPass w = .ok k w' → w'.crawlCounts = w.crawlCounts ++ [1] ∧
      ∃ qs, Job.runPassAsked w = .ok (k, ⟨w.tree.root, true⟩ :: qs) w' ∧ ∀ q ∈ qs, q.stale = false) ∧
    Job.runPass.Ends w (fun _ w' => w'.followers = w.followers) (fun _ w' => w'.followers = w.followers) ∧
    ∀ (e : Engine) report w', e.run w = .ok report w' →
      w'.crawlCounts = w.crawlCounts ++ List.replicate report.passes 1 := by
  refine ⟨fun k w' hrun => ?_, ?_, fun e report w' hrun => ?_⟩
  · rw [← Job.runPass_of_asked] at hrun
    obtain ⟨⟨k, qs⟩, hok, rfl⟩ := Job.map_eq_ok.mp hrun
    obtain ⟨_, _, hcounts, _, rest, rfl, hrest⟩ := (Job.ends_runPassAsked ht hf).of_ok hok
    exact ⟨hcounts, rest, hok, hrest⟩
  · rw [← Job.runPass_of_asked, Job.ends_map]
    exact (Job.ends_runPassAsked ht hf).imp fun _ _ h => h.2.1
  · have hends : e.run.Ends w (fun report w' =>
        w'.crawlCounts = w.crawlCounts ++ List.replicate report.passes 1) Job.Whatever := by
      rw [Engine.run, Job.ends_bind, Job.ends_modify, Job.ends_bind, Job.ends_get, Job.ends_bind]
      refine (Job.ends_runPasses_crawls _ (w := { w with report := {} }) ht hf).imp fun _ u hu => ?_
      obtain ⟨k, hk, hcounts⟩ := hu
      rw [Job.ends_bind, Job.ends_get, Job.ends_pure, hk, hcounts]
      exact congrArg (_ ++ List.replicate · 1) (Nat.zero_add k).symm
    exact hends.of_ok hrun

/-- The walk of the small program asks for the scope of each node it enters, and once more at the assignment. -/
theorem runPass_crawls_once_smallProgram : ∃ k w' report w'' qs,
    Job.runPass { tree := smallProgram, followers := [.recorder] } = .ok k w' ∧ w'.crawlCounts = [1] ∧
      w'.followers = [.recorder] ∧
      Job.runPassAsked { tree := smallProgram, followers := [.recorder] } = .ok (k, ⟨0, true⟩ :: qs) w' ∧
      qs.length = 16 ∧ (∀ q ∈ qs, q.stale = false) ∧
    ({ untilStable := true } : Engine).run { tree := smallProgram, followers := [.recorder] } =
      .ok report w'' ∧ report.passes = 2 ∧ w''.crawlCounts = [1, 1] := by
  obtain ⟨hpass, hfollowers, hall⟩ := runPass_crawls_once { tree := smallProgram, followers := [.recorder] }
    (admissible_iff.mp admissible_smallProgram).1 fun id hid => by simp at hid
  have hout : answer? (Job.runPassAsked { tree := smallProgram, followers := [.recorder] })
      (fun r _ => r.2.length) = some 17 := by decide +kernel
  obtain ⟨⟨k, log⟩, w', hasked, hlength⟩ := answer?_eq_some.mp hout
  have hok : Job.runPass { tree := smallProgram, followers := [.recorder] } = .ok k w' := by
    rw [← Job.runPass_of_asked]
    exact Job.map_eq_ok.mpr ⟨_, hasked, rfl⟩
  obtain ⟨hcounts, qs, hlog, hqs⟩ := hpass k w' hok
  obtain rfl : log = _ := congrArg Prod.snd (EStateM.Result.ok.inj (hasked.symm.trans hlog)).1
  have hrun : answer? (({ untilStable := true } : Engine).run { tree := smallProgram, followers := [.recorder] })
      (fun report _ => report.passes) = some 2 := by decide +kernel
  obtain ⟨report, w'', hrun, hpasses⟩ := answer?_eq_some.mp hrun
  refine ⟨k, w', report, w'', qs, hok, hcounts, hfollowers.of_ok hok, hlog, ?_, hqs, hrun, hpasses, ?_⟩
  · exact Nat.succ.inj hlength
  · rw [hall _ _ _ hrun, hpasses]
    rfl

end DeadCode
