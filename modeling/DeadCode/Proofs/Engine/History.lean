import DeadCode.Engine
import DeadCode.Proofs.Engine.Jobs

/-!
Passes that keep a history. A pass leaves only its tables, so what it did on the way is noted beside it: the
constructs taken out, the nodes shown to the collector and the turns of the candidates. The notes are never
read, so a noted job without its notes is the job itself (`run_of_noted` and the lemmas before it).
-/

namespace DeadCode

/-- A construct that was taken out for its binding. -/
structure Excision where
  binding : Binding
  before : Workspace
  after : Workspace

/-- A node shown to the collector, in the tree and the analysis of that moment. -/
structure Sighting where
  node : NodeId
  tree : Tree
  analysis : Analysis

/-- The turn of a candidate after the walk. -/
structure Turn where
  name : String
  assignment : NodeId
  before : Workspace
  after : Workspace
  removed : Bool

/-- What happened in one pass, each list in order of time. -/
structure History where
  excisions : List Excision := []
  sightings : List Sighting := []
  turns : List Turn := []

namespace History

def excise (h : History) (x : Excision) : History := { h with excisions := h.excisions ++ [x] }

def sight (h : History) (s : Sighting) : History := { h with sightings := h.sightings ++ [s] }

def turn (h : History) (t : Turn) : History := { h with turns := h.turns ++ [t] }

end History

namespace Job

def removeBindingNoted (id : AnalysisId) (b : Binding) (h : History) : Job (Bool × History) := do
  let before ← get
  let done ← removeBinding id b
  let after ← get
  return (done, if done then h.excise ⟨b, before, after⟩ else h)

def reduceScopeNoted (id : AnalysisId) (s : ScopeId) (h : History) : Job (Nat × History) := do
  let a := (← get).analysis id
  (a.unreferenced s).foldlM (fun n b => do
    let done ← removeBindingNoted id (a.binding b) n.2
    return (if done.1 then n.1 + 1 else n.1, done.2)) (0, h)

def reduceNoted (id : AnalysisId) (s : ScopeId) (settled : Settled) (h : History) :
    Job ((Nat × Settled) × History) := do
  let a := (← get).analysis id
  let key : ScopeKey := ⟨id, a.crawls, s⟩
  if settled.get? key = some (a.scope s).revision then return ((0, settled), h)
  let n ← reduceScopeNoted id s h
  if n.1 = 0 then
    let revision := (((← get).analysis id).scope s).revision
    return ((0, settled.insert key revision), n.2)
  return ((n.1, settled), n.2)

def enterNoted (id : AnalysisId) (n : NodeId) (p : Pass × History) : Job (Pass × History) := do
  let s ← scopeFor id n
  let r ← reduceNoted id s p.1.settled p.2
  return ({ p.1 with settled := r.1.2 }, r.2)

def collectNoted (id : AnalysisId) (n : NodeId) (p : Pass × History) : Job (Pass × History) := do
  let pass ← collect id n p.1
  let w ← get
  return (pass, p.2.sight ⟨n, w.tree, w.analysis id⟩)

/-- The walk of a pass over the whole tree. -/
def walkNoted (id : AnalysisId) : Job (Pass × History) := do
  let t := (← get).tree
  traverse (enterNoted id) (collectNoted id) (t.size + 1) ({}, {}) t.root

def removeCandidateNoted (name : String) (n : NodeId) (h : History) : Job (Bool × History) := do
  let before ← get
  let done ← removeCandidate name n
  let after ← get
  return (done, h.turn ⟨name, n, before, after, done⟩)

def removeCandidatesNoted (c : Collector) (h : History) : Job (Nat × History) :=
  c.candidates.entries.foldlM (fun n e => do
    let done ← removeCandidateNoted e.1 e.2 n.2
    return (if done.1 then n.1 + 1 else n.1, done.2)) (0, h)

def runPassNoted : Job (Nat × History) := do
  let before := (← get).report.total
  let p ← withAnalysis walkNoted
  let n ← removeCandidatesNoted p.1.collector p.2
  modify fun w => { w with report := { w.report with passes := w.report.passes + 1 } }
  return ((← get).report.total - before, n.2)

/-- The history of every pass. -/
def runPassesNoted : Nat → Job (List History)
  | 0 => return []
  | fuel + 1 => do
    let n ← runPassNoted
    if n.1 = 0 then return [n.2]
    let rest ← runPassesNoted fuel
    return n.2 :: rest

end Job

def Engine.runNoted (e : Engine) : Job (Report × List History) := do
  modify ({ · with report := {} })
  let histories ← Job.runPassesNoted (e.passLimit (← get).tree)
  return ((← get).report, histories)

/-! ## The notes change nothing -/

namespace Job

variable {α β α' β' σ τ : Type}

/-- Forgetting results step by step. -/
theorem map_bind_eq {f : α → α'} {g : β → β'} {j : Job α} {j' : Job α'} {k : α → Job β} {k' : α' → Job β'}
    (hj : f <$> j = j') (hk : ∀ a, g <$> k a = k' (f a)) : g <$> (j >>= k) = j' >>= k' := by
  rw [map_bind, ← hj, bind_map_left]
  exact bind_congr hk

theorem map_foldlM_eq {f : σ → τ} {g : σ → α → Job σ} {g' : τ → α → Job τ}
    (hstep : ∀ s a, f <$> g s a = g' (f s) a) (l : List α) (s : σ) :
    f <$> l.foldlM g s = l.foldlM g' (f s) := by
  induction l generalizing s with
  | nil => exact map_pure f s
  | cons a l ih =>
    rw [List.foldlM_cons, List.foldlM_cons]
    exact map_bind_eq (hstep s a) ih

theorem map_ite_eq {f : α → α'} {c : Prop} [Decidable c] {j k : Job α} {j' k' : Job α'} (hj : f <$> j = j')
    (hk : f <$> k = k') : f <$> (if c then j else k) = if c then j' else k' := by
  split
  · exact hj
  · exact hk

theorem map_traverse_eq {f : σ → τ} {enter collect : NodeId → σ → Job σ} {enter' collect' : NodeId → τ → Job τ}
    (he : ∀ n s, f <$> enter n s = enter' n (f s)) (hc : ∀ n s, f <$> collect n s = collect' n (f s))
    (fuel : Nat) (s : σ) (n : NodeId) :
    f <$> traverse enter collect fuel s n = traverse enter' collect' fuel (f s) n := by
  induction fuel generalizing s n with
  | zero => exact map_pure f s
  | succ fuel ih =>
    rw [traverse, traverse]
    refine map_bind_eq (id_map _) fun w => map_ite_eq (map_pure f s) ?_
    refine map_bind_eq (he n s) fun s => map_bind_eq (id_map _) fun w => map_ite_eq (map_pure f s) ?_
    refine map_bind_eq (hc n s) fun s => map_bind_eq (id_map _) fun w => ?_
    exact map_foldlM_eq ih _ s

/-- Looking at the workspace before and after a job. -/
theorem map_watch_eq (j : Job α) {g : Workspace → α → Workspace → β} {f : β → α}
    (hf : ∀ before a after, f (g before a after) = a) :
    f <$> (do
      let before ← get
      let a ← j
      let after ← get
      return g before a after) = j := by
  funext w
  change EStateM.map f (EStateM.bind j fun a after => .ok (g w a after) after) w = j w
  simp only [EStateM.map, EStateM.bind]
  cases j w with
  | ok a w' => simp only [hf]
  | error e w' => rfl

theorem removeBinding_of_noted (id : AnalysisId) (b : Binding) (h : History) :
    Prod.fst <$> removeBindingNoted id b h = removeBinding id b :=
  map_watch_eq _ fun _ _ _ => rfl

theorem reduceScope_of_noted (id : AnalysisId) (s : ScopeId) (h : History) :
    Prod.fst <$> reduceScopeNoted id s h = reduceScope id s := by
  refine map_bind_eq (id_map _) fun w => ?_
  refine map_foldlM_eq (fun n b => ?_) _ (0, h)
  exact map_bind_eq (removeBinding_of_noted id _ n.2) fun _ => map_pure _ _

theorem reduce_of_noted (id : AnalysisId) (s : ScopeId) (settled : Settled) (h : History) :
    Prod.fst <$> reduceNoted id s settled h = reduce id s settled := by
  refine map_bind_eq (id_map _) fun w => map_ite_eq (map_pure _ _) ?_
  refine map_bind_eq (reduceScope_of_noted id s h) fun n => map_ite_eq ?_ (map_pure _ _)
  exact map_bind_eq (id_map _) fun w => map_pure _ _

theorem enter_of_noted (id : AnalysisId) (n : NodeId) (p : Pass × History) :
    Prod.fst <$> enterNoted id n p = enter id n p.1 :=
  map_bind_eq (id_map _) fun s => map_bind_eq (reduce_of_noted id s p.1.settled p.2) fun _ => map_pure _ _

theorem collect_of_noted (id : AnalysisId) (n : NodeId) (p : Pass × History) :
    Prod.fst <$> collectNoted id n p = collect id n p.1 := by
  have h := map_watch_eq (collect id n p.1) (f := Prod.fst)
    (g := fun _ pass w => (pass, p.2.sight ⟨n, w.tree, w.analysis id⟩)) fun _ _ _ => rfl
  exact h

theorem removeCandidate_of_noted (name : String) (n : NodeId) (h : History) :
    Prod.fst <$> removeCandidateNoted name n h = removeCandidate name n :=
  map_watch_eq _ fun _ _ _ => rfl

theorem removeCandidates_of_noted (c : Collector) (h : History) :
    Prod.fst <$> removeCandidatesNoted c h = removeCandidates c := by
  refine map_foldlM_eq (fun n e => ?_) _ (0, h)
  exact map_bind_eq (removeCandidate_of_noted e.1 e.2 n.2) fun _ => map_pure _ _

theorem walk_of_noted (id : AnalysisId) : Prod.fst <$> walkNoted id = (do
    let t := (← get).tree
    traverse (enter id) (collect id) (t.size + 1) {} t.root) :=
  map_bind_eq (id_map _) fun _ => map_traverse_eq (enter_of_noted id) (collect_of_noted id) _ ({}, {}) _

theorem map_withAnalysis_eq {f : α → α'} {j : AnalysisId → Job α} {j' : AnalysisId → Job α'}
    (h : ∀ id, f <$> j id = j' id) : f <$> withAnalysis j = withAnalysis j' := by
  funext w
  have hj : j' w.startAnalysis.1 w.startAnalysis.2 = EStateM.map f (j w.startAnalysis.1) w.startAnalysis.2 := by
    rw [← h]
    rfl
  change EStateM.map f (withAnalysis j) w = _
  simp only [EStateM.map, withAnalysis, hj]
  cases j w.startAnalysis.1 w.startAnalysis.2 <;> rfl

theorem runPass_of_noted : Prod.fst <$> runPassNoted = runPass := by
  refine map_bind_eq (id_map _) fun w => ?_
  refine map_bind_eq (map_withAnalysis_eq walk_of_noted) fun p => ?_
  refine map_bind_eq (removeCandidates_of_noted p.1.collector p.2) fun n => ?_
  exact map_bind_eq (id_map _) fun _ => map_bind_eq (id_map _) fun _ => map_pure _ _

/-- A pass that returns does so with its history. -/
theorem runPassNoted_ok {k : Nat} {w w' : Workspace} (h : runPass w = .ok k w') :
    ∃ history, runPassNoted w = .ok (k, history) w' := by
  rw [← runPass_of_noted] at h
  obtain ⟨⟨k', history⟩, hok, rfl⟩ := map_eq_ok.mp h
  exact ⟨history, hok⟩

theorem runPasses_of_noted (fuel : Nat) : (fun _ => ()) <$> runPassesNoted fuel = runPasses fuel := by
  induction fuel with
  | zero => exact map_pure _ _
  | succ fuel ih =>
    refine map_bind_eq runPass_of_noted fun n => map_ite_eq (map_pure _ _) ?_
    simp only [map_bind, map_pure]
    rw [← ih]
    simp

end Job

/-! ## Who writes which notes -/

namespace Job

variable {w : Workspace}

/-- The history but for the excisions. -/
def SameNotes (h h' : History) : Prop := h'.sightings = h.sightings ∧ h'.turns = h.turns

theorem ends_removeBindingNoted_notes (id : AnalysisId) (b : Binding) (h : History) :
    (removeBindingNoted id b h).Ends w (fun r _ => SameNotes h r.2) Whatever := by
  rw [removeBindingNoted, ends_bind, ends_get, ends_bind]
  refine (ends_whatever _).imp fun done _ _ => ?_
  cases done with
  | false => exact ⟨rfl, rfl⟩
  | true => exact ⟨rfl, rfl⟩

theorem ends_reduceScopeNoted_notes (id : AnalysisId) (s : ScopeId) (h : History) :
    (reduceScopeNoted id s h).Ends w (fun r _ => SameNotes h r.2) Whatever := by
  rw [reduceScopeNoted, ends_bind, ends_get]
  refine ends_foldlM (I := fun (r : Nat × History) _ => SameNotes h r.2) (fun β _ r u hr => ?_) ⟨rfl, rfl⟩
  rw [ends_bind]
  refine (ends_removeBindingNoted_notes id _ r.2).imp fun done _ hdone => ?_
  exact ⟨hdone.1.trans hr.1, hdone.2.trans hr.2⟩

/-- Entering a node tells the collector nothing. -/
theorem ends_enterNoted_notes (id : AnalysisId) (n : NodeId) (p : Pass × History) :
    (enterNoted id n p).Ends w
      (fun p' _ => p'.1.collector = p.1.collector ∧ SameNotes p.2 p'.2) Whatever := by
  rw [enterNoted, ends_bind]
  refine (ends_whatever _).imp fun s _ _ => ?_
  rw [ends_bind, reduceNoted, ends_bind, ends_get]
  refine ends_ite (fun _ => ⟨rfl, rfl, rfl⟩) fun _ => ?_
  rw [ends_bind]
  refine (ends_reduceScopeNoted_notes id s p.2).imp fun r _ hr => ?_
  refine ends_ite (fun _ => ?_) fun _ => ⟨rfl, hr⟩
  rw [ends_bind, ends_get]
  exact ⟨rfl, hr⟩

end Job

theorem Engine.run_of_noted (e : Engine) : Prod.fst <$> e.runNoted = e.run := by
  refine Job.map_bind_eq (id_map _) fun _ => Job.map_bind_eq (id_map _) fun w => ?_
  refine Job.map_bind_eq (Job.runPasses_of_noted _) fun _ => ?_
  exact Job.map_bind_eq (id_map _) fun _ => map_pure _ _

/-- A run returns exactly if it does so with its history. -/
theorem Engine.run_eq_ok_iff {e : Engine} {w w' : Workspace} {report : Report} :
    e.run w = .ok report w' ↔ ∃ hs, e.runNoted w = .ok (report, hs) w' := by
  rw [← e.run_of_noted, Job.map_eq_ok]
  constructor
  · rintro ⟨⟨report, hs⟩, hok, rfl⟩
    exact ⟨hs, hok⟩
  · rintro ⟨hs, hok⟩
    exact ⟨(report, hs), hok, rfl⟩

/-! ## Series of passes -/

/-- Passes with these histories lead from one workspace to another. -/
inductive Passes : Workspace → List History → Workspace → Prop
  | nil {w : Workspace} : Passes w [] w
  | cons {w u w' : Workspace} {k : Nat} {h : History} {hs : List History} :
      Job.runPassNoted w = .ok (k, h) u → Passes u hs w' → Passes w (h :: hs) w'

theorem Job.ends_runPassesNoted_passes (fuel : Nat) : ∀ w : Workspace,
    (runPassesNoted fuel).Ends w (Passes w) Whatever := by
  induction fuel with
  | zero => exact fun w => .nil
  | succ fuel ih =>
    intro w
    rw [runPassesNoted, ends_bind]
    refine (ends_self runPassNoted).imp fun r u hr => ends_ite (fun _ => .cons hr .nil) fun _ => ?_
    rw [ends_bind]
    exact (ih u).imp fun hs w' hs' => .cons hr hs'

theorem Engine.runNoted_passes {e : Engine} {w w' : Workspace} {report : Report} {hs : List History}
    (h : e.runNoted w = .ok (report, hs) w') : Passes { w with report := {} } hs w' := by
  have hends : e.runNoted.Ends w (fun r => Passes { w with report := {} } r.2) Job.Whatever := by
    rw [Engine.runNoted, Job.ends_bind, Job.ends_modify, Job.ends_bind, Job.ends_get, Job.ends_bind]
    exact (Job.ends_runPassesNoted_passes _ { w with report := {} }).imp fun hs w' hs' => hs'
  exact hends.of_ok h

end DeadCode
