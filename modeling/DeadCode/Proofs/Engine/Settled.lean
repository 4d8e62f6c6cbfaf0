import DeadCode.Proofs.Engine.Runs
import DeadCode.Proofs.Engine.Trace
import DeadCode.Proofs.Names.Checks

/-!
Settled scopes. A pass passes over a scope in which it found nothing to remove until the revision of the scope goes
up. While the revision stays, nothing in the scope becomes removable, whatever leaves the tree (`Inert.subtract`); so
a run that examines every scope each time does the same (`run_thorough`).
-/

namespace DeadCode

open DeadCode.Tree Workspace

/-! ## A run that examines every scope -/

namespace Job

/-- As `reduce`, with a settled scope examined like any other. -/
def reduceThorough (id : AnalysisId) (s : ScopeId) (settled : Settled) : Job (Nat × Settled) := do
  let a := (← get).analysis id
  let key : ScopeKey := ⟨id, a.crawls, s⟩
  let removed ← reduceScope id s
  if removed = 0 then
    let revision := (((← get).analysis id).scope s).revision
    return (0, settled.insert key revision)
  return (removed, settled)

/-- As `enter`, with every scope examined. -/
def enterThorough (id : AnalysisId) (n : NodeId) (p : Pass) : Job Pass := do
  let s ← scopeFor id n
  let (_, settled) ← reduceThorough id s p.settled
  return { p with settled }

/-- As `runPass`, with another way to enter a node. -/
def runPassBy (enter : AnalysisId → NodeId → Pass → Job Pass) : Job Nat := do
  let before := (← get).report.total
  let p ← withAnalysis fun id => do
    let t := (← get).tree
    traverse (enter id) (collect id) (t.size + 1) {} t.root
  let _ ← removeCandidates p.collector
  modify fun w => { w with report := { w.report with passes := w.report.passes + 1 } }
  return (← get).report.total - before

def runPassesBy (enter : AnalysisId → NodeId → Pass → Job Pass) : Nat → Job Unit
  | 0 => return ()
  | fuel + 1 => do
    if (← runPassBy enter) = 0 then return ()
    runPassesBy enter fuel

end Job

/-- As `run`, with another way to enter a node. -/
def Engine.runBy (e : Engine) (enter : AnalysisId → NodeId → Pass → Job Pass) : Job Report := do
  modify ({ · with report := {} })
  Job.runPassesBy enter (e.passLimit (← get).tree)
  return (← get).report

theorem Job.runPassesBy_enter (fuel : Nat) : Job.runPassesBy Job.enter fuel = Job.runPasses fuel := by
  induction fuel with
  | zero => rfl
  | succ fuel ih =>
    rw [Job.runPassesBy, Job.runPasses, ih]
    rfl

theorem Engine.runBy_enter (e : Engine) : e.runBy Job.enter = e.run := by
  unfold Engine.runBy Engine.run
  simp only [Job.runPassesBy_enter]

/-! ## Jobs that do the same -/

namespace Job

variable {α β σ : Type} {w w' : Workspace}

/-- From `w` on both jobs do the same, and if they return, then with `Q`. -/
def Agree (j k : Job α) (w : Workspace) (Q : α → Workspace → Prop) : Prop :=
  k w = j w ∧ j.Ends w Q Whatever

theorem agree_refl {j : Job α} {Q : α → Workspace → Prop} (h : j.Ends w Q Whatever) : Agree j j w Q := ⟨rfl, h⟩

theorem agree_get {f g : Workspace → Job β} {Q : β → Workspace → Prop} (h : Agree (f w) (g w) w Q) :
    Agree (get >>= f) (get >>= g) w Q := h

theorem agree_bind {j k : Job α} {f g : α → Job β} {Q : α → Workspace → Prop} {R : β → Workspace → Prop}
    (hj : Agree j k w Q) (hf : ∀ x w', Q x w' → Agree (f x) (g x) w' R) : Agree (j >>= f) (k >>= g) w R := by
  obtain ⟨hsame, hends⟩ := hj
  refine ⟨?_, ?_⟩
  · change EStateM.bind k g w = EStateM.bind j f w
    rw [EStateM.bind, EStateM.bind, hsame]
    unfold Ends at hends
    cases hrun : j w with
    | ok x w' =>
      rw [hrun] at hends
      exact (hf x w' hends).1
    | error e w' => rfl
  · rw [ends_bind]
    exact hends.imp fun x w' hx => (hf x w' hx).2

theorem agree_withAnalysis {job job' : AnalysisId → Job α} {Q : α → Workspace → Prop}
    (h : Agree (job w.startAnalysis.1) (job' w.startAnalysis.1) w.startAnalysis.2 Q) :
    Agree (withAnalysis job) (withAnalysis job') w fun _ _ => True := by
  refine ⟨?_, ends_whatever _⟩
  unfold withAnalysis
  dsimp only
  rw [h.1]

theorem agree_foldlM {I : σ → Workspace → Prop} {f g : σ → α → Job σ}
    (hstep : ∀ x s w, I s w → Agree (f s x) (g s x) w I) (l : List α) {s : σ} (hs : I s w) :
    Agree (l.foldlM f s) (l.foldlM g s) w I := by
  induction l generalizing s w with
  | nil => exact agree_refl hs
  | cons x l ih =>
    rw [List.foldlM_cons, List.foldlM_cons]
    exact agree_bind (hstep x s w hs) fun s' w' hs' => ih hs'

theorem agree_traverse {I : σ → Workspace → Prop} {enter enter' collect : NodeId → σ → Job σ}
    (he : ∀ n s w, I s w → Agree (enter n s) (enter' n s) w I)
    (hc : ∀ n s w, I s w → (collect n s).Ends w I Whatever) (fuel : Nat) : ∀ {s : σ} {w : Workspace} (n : NodeId),
      I s w → Agree (traverse enter collect fuel s n) (traverse enter' collect fuel s n) w I := by
  induction fuel with
  | zero => exact fun _ hs => agree_refl hs
  | succ fuel ih =>
    intro s w n hs
    rw [traverse, traverse]
    refine agree_get ?_
    split
    · exact agree_refl hs
    · refine agree_bind (he n s w hs) fun s₁ w₁ hs₁ => agree_get ?_
      split
      · exact agree_refl hs₁
      · refine agree_bind (agree_refl (hc n s₁ w₁ hs₁)) fun s₂ w₂ hs₂ => agree_get ?_
        exact agree_foldlM (fun c s w hs => ih c hs) _ hs₂

end Job

/-! ## What stays put under a cut -/

variable {id : AnalysisId} {w w' : Workspace} {settled : Settled} {a : Analysis} {t t' : Tree} {n q : NodeId}
  {gone : List NodeId} {s : ScopeId} {b : Binding} {β : BindingId}

theorem Tree.Stuck.remains (h : t.Stuck n) (hr : Remains t t') (ht : t.Consistent) (hn : t'.Below t'.root n) :
    t'.Stuck n := by
  obtain ⟨q, hq, hlist, hslot⟩ := h
  have hlt := lt_size_of_parent hq
  have hk := hr.kind_eq q (ht.parent_lt hq)
  refine ⟨q, (hr.parent_eq n hlt hn).trans hq, ?_, ?_⟩
  · rw [hk]
    exact hlist
  · rw [hk, hr.field_eq n hlt]
    exact hslot

/-- No declarator comes in. -/
theorem Tree.Sole.remains {d p : NodeId} (h : t.Sole d p) (hr : Remains t t') (ht : t.Consistent)
    (hd : t'.Below t'.root d) : t'.Sole d p := by
  intro c hc hk
  have hp := (hr.consistent.mem_children d c).mp hc
  have hroot : t'.Below t'.root c := .step hp hd
  rcases lt_or_ge c t.size with hlt | hge
  · have hp' : t.parent c = some d := (hr.parent_eq c hlt hroot).symm.trans hp
    exact h c ((ht.mem_children d c).mpr hp') ((hr.kind_eq c hlt).symm.trans hk)
  · rw [hr.fresh_kind c hge (lt_size_of_parent hp)] at hk
    cases hk

section Cut

variable (ht : t.Consistent) (hc : Cut t t' q n gone) (hs : t.Spares q gone) (hsited : Sited a t)
  (ha : a.Arranged t) (hrev : ((a.subtract t' n).scope s).revision = (a.scope s).revision)

include ht hc hs hsited ha hrev

/-- A name that holds a declarator back goes on to hold it back: neither does its identifier leave the pattern, nor
its last reference go unnoticed. -/
theorem Analysis.Holds.subtract (hb : b.scope = s) (hk : t.kind b.path = .variableDeclarator)
    (hroot : t'.Below t'.root b.path) (h : a.Holds b) : (a.subtract t' n).Holds b := by
  subst hb
  obtain ⟨x, hx, c, hown, hpath, hrefs⟩ := h
  have hentry : (x, c) ∈ (a.scope b.scope).names.entries := Table.mem_of_get? hown
  have hclt := hsited.names_lt _ _ hentry
  have hplt : b.path < t.size := hpath ▸ hsited.path_lt c hclt
  have hpattern : t.InPattern b.path (a.identifierOf c) := by
    have hold := ((hc.below_root_iff ht hplt).mp hroot).1
    rw [← hpath] at hk hold ⊢
    exact ha.patterned c hclt hk hold
  have hout : a.identifierOf c ∉ t'.walkFrom n := fun hmem => by
    have hattached := hroot.trans (hpattern.cut hc hs hk).to_below
    have hbelow := hc.below_of_below ht hpattern.lt_size (below_of_mem_descend (hc.consistent ht) hmem)
    exact hc.not_below_gone ht hpattern.lt_size hattached hc.node_mem hbelow
  obtain ⟨_, he⟩ := (sameBindings_subtract a t' n).binding c
  refine ⟨x, hx, c, own?_subtract ha.labelled hown hout, ?_, referenced_subtract ha.owned hrev hentry hrefs⟩
  rw [he]
  exact hpath

theorem Analysis.Declines.subtract (hb : b.scope = s) (hplaced : b.Placed t) (hlt : b.path < t.size)
    (hroot : t'.Below t'.root b.path) (h : a.Declines t b) : (a.subtract t' n).Declines t' b := by
  have hr := hc.remains ht
  unfold Analysis.Declines at h ⊢
  unfold Binding.Placed at hplaced
  cases hcon : b.construct with
  | declarator =>
    rw [hcon] at h hplaced
    rcases h with hholds | hnone | ⟨d, hd, hsole, hstuck⟩
    · exact .inl (hholds.subtract ht hc hs hsited ha hrev hb hplaced hroot)
    · exact .inr (.inl ((hr.parent_eq _ hlt hroot).trans hnone))
    · have hd' := (hr.parent_eq _ hlt hroot).trans hd
      have hroot' := hroot.of_child hr.consistent hd'
      exact .inr (.inr ⟨d, hd', hsole.remains hr ht hroot', hstuck.remains hr ht hroot'⟩)
  | function =>
    rw [hcon] at h
    exact h.remains hr ht hroot
  | importSpecifier =>
    rw [hcon] at h
    exact h.elim
  | importDefault =>
    rw [hcon] at h
    exact h.elim
  | other => trivial

/-- While the revision of a scope stays, so does all that stayed before. -/
theorem Analysis.Inert.subtract (h : a.Inert t s) : (a.subtract t' n).Inert t' s := by
  intro β hβ hroot
  have hβ' := unreferenced_subtract ha.owned hrev hβ
  obtain ⟨hown, hrefs⟩ := List.mem_filter.mp hβ'
  obtain ⟨e, he, rfl⟩ := List.mem_map.mp hown
  have hlt := hsited.names_lt s e he
  have hplt := hsited.path_lt e.2 hlt
  rw [(sameBindings_subtract a t' n).binding_eq (by simpa [Binding.referenced] using hrefs)] at hroot ⊢
  have hold := ((hc.below_root_iff ht hplt).mp hroot).1
  exact (h e.2 hβ' hold).subtract ht hc hs hsited ha hrev (ha.owned s e he) (hsited.placed e.2 hlt hold) hplt
    hroot

end Cut

/-! ## Scopes that a pass has settled -/

/-- What holds of the settled scopes throughout a pass: a scope that was examined at the revision it has holds nothing
that could be removed. -/
structure Kept (id : AnalysisId) (settled : Settled) (w : Workspace) : Prop where
  tracks : Tracks id w
  arranged : (w.analysis id).Arranged w.tree
  fresh : (w.analysis id).version = none → settled = {}
  settled : ∀ s r, settled.get? ⟨id, (w.analysis id).crawls, s⟩ = some r →
    r ≤ ((w.analysis id).scope s).revision ∧
      (r = ((w.analysis id).scope s).revision → (w.analysis id).Inert w.tree s)

namespace Kept

theorem start (ht : w.tree.Consistent) : Kept w.startAnalysis.1 {} w.startAnalysis.2 := by
  have hnew : w.startAnalysis.2.analysis w.startAnalysis.1 = {} := by
    simp [startAnalysis, join, analysis]
  refine ⟨(Traced.start ht).tracks, ?_, fun _ => rfl, fun _ _ hget => (by cases hget)⟩
  rw [hnew]
  exact ⟨fun _ _ he => (by cases he), fun _ _ hget => (by cases hget), fun _ hb => absurd hb (Nat.not_lt_zero _)⟩

theorem edits (h : Kept id settled w) (he : Edits w w') : Kept id settled w' := by
  induction he with
  | refl => exact h
  | report r he ih => exact ⟨(Edits.report r he).tracks h.tracks, ih.arranged, ih.fresh, ih.settled⟩
  | @settle u t q n gone he hcut hspares ih =>
    have htracks := (Edits.settle he hcut hspares).tracks h.tracks
    have hanalysis := analysis_settle ih.tracks.follows t n
    have hworn := worn_subtract (u.analysis id) t n
    have ht := ih.tracks.consistent
    refine ⟨htracks, ?_, fun hv => ?_, fun s r hget => ?_⟩
    · rw [hanalysis, tree_settle]
      exact ih.arranged.subtract ht hcut hspares n
    · rw [hanalysis] at hv
      rcases ih.tracks.sited with hnone | ⟨hsome, _⟩
      · exact ih.fresh hnone
      · rw [version_subtract hcut hsome] at hv
        cases hv
    · rw [hanalysis, hworn.crawls] at hget
      obtain ⟨hle, hinert⟩ := ih.settled s r hget
      have hsited : Sited (u.analysis id) u.tree := by
        rcases ih.tracks.sited with hnone | ⟨_, hsited⟩
        · rw [ih.fresh hnone] at hget
          cases hget
        · exact hsited
      rw [hanalysis, tree_settle]
      have hup := hworn.revision s
      refine ⟨hle.trans hup, fun hr => ?_⟩
      have hrev : (((u.analysis id).subtract t n).scope s).revision = ((u.analysis id).scope s).revision :=
        le_antisymm (hr ▸ hle) hup
      exact (hinert (hr.trans hrev)).subtract ht hcut hspares hsited ih.arranged hrev

theorem refresh (h : Kept id settled w) : Kept id settled (w.refresh id) := by
  rcases h.tracks.sited with hnone | ⟨hsome, _⟩
  · have hanalysis : (w.refresh id).analysis id = (w.analysis id).crawl w.tree := by
      rw [analysis_refresh h.tracks.follows.lt, if_pos (by rw [Analysis.stale, hnone]; rfl)]
    have hempty := h.fresh hnone
    refine ⟨h.tracks.refresh, ?_, fun _ => hempty, fun _ _ hget => ?_⟩
    · rw [hanalysis, (refresh_frame w id).1]
      exact arranged_crawl h.tracks.consistent _
    · rw [hempty] at hget
      cases hget
  · have hsame : w.refresh id = w := by
      rw [Workspace.refresh]
      exact if_neg (by simp [Analysis.stale, hsome])
    rw [hsame]
    exact h

/-- A scope that was examined and holds nothing to remove. -/
theorem insert (h : Kept id settled w) (hv : (w.analysis id).version ≠ none)
    (hinert : (w.analysis id).Inert w.tree s) :
    Kept id (settled.insert ⟨id, (w.analysis id).crawls, s⟩ ((w.analysis id).scope s).revision) w := by
  refine ⟨h.tracks, h.arranged, fun hnone => absurd hnone hv, fun s' r hget => ?_⟩
  rw [Table.get?_insert] at hget
  split at hget
  · rename_i he
    obtain rfl := (ScopeKey.mk.inj he).2.2
    obtain rfl := Option.some.inj hget
    exact ⟨le_rfl, fun _ => hinert⟩
  · exact h.settled s' r hget

end Kept

/-! ## Reductions -/

namespace Job

/-- The list of unreferenced bindings is drawn up once; what it says stays true during the reduction. -/
theorem ends_reduceScope_any (h : Tracks id w) (hv : (w.analysis id).version ≠ none) (s : ScopeId) :
    (reduceScope id s).Ends w (fun removed w' => Edits w w' ∧
      (removed = 0 → w' = w ∧ (w.analysis id).Inert w.tree s)) Whatever := by
  rw [reduceScope, ends_bind, ends_get]
  have hloop := ends_foldlM_all (w := w) (s := 0) (E := Whatever)
    (I := fun removed w' => Edits w w' ∧ (removed = 0 → w' = w))
    (D := fun β removed _ => removed = 0 → w.tree.Below w.tree.root ((w.analysis id).binding β).path →
      (w.analysis id).Declines w.tree ((w.analysis id).binding β))
    (f := fun removed β => do
      return if ← removeBinding id ((w.analysis id).binding β) then removed + 1 else removed)
    (l := (w.analysis id).unreferenced s) ?_ ⟨.refl, fun _ => rfl⟩
  · refine hloop.imp fun removed w' hr => ?_
    obtain ⟨⟨hedits, hsame⟩, hall, _⟩ := hr
    exact ⟨hedits, fun hzero => ⟨hsame hzero, fun β hβ hroot => hall β hβ hzero hroot⟩⟩
  · intro β hβ removed u hu
    obtain ⟨hedits, hsame⟩ := hu
    have hl := (h.listed hv hβ).edits hedits
    rw [ends_bind]
    refine (ends_removeBinding_any hl).imp fun done w' hdone => ?_
    rw [ends_pure]
    cases done with
    | true =>
      exact ⟨⟨hedits.trans (hdone.1 rfl).edits, fun hz => (by cases hz)⟩, fun hz => (by cases hz),
        fun _ _ hz => (by cases hz)⟩
    | false =>
      obtain ⟨rfl, hdeclines⟩ := hdone.2 rfl
      refine ⟨⟨hedits, hsame⟩, fun hz => ?_, fun _ hb => hb⟩
      rw [hsame hz] at hdeclines
      exact hdeclines

/-- In a scope where everything stays nothing happens. -/
theorem reduceScope_inert (h : Tracks id w) (hv : (w.analysis id).version ≠ none)
    (hinert : (w.analysis id).Inert w.tree s) : reduceScope id s w = .ok 0 w := by
  have hends : (reduceScope id s).Ends w (fun removed w' => removed = 0 ∧ w' = w) Never := by
    rw [reduceScope, ends_bind, ends_get]
    refine ends_foldlM (I := fun removed w' => removed = 0 ∧ w' = w) (fun β hβ removed u hu => ?_) ⟨rfl, rfl⟩
    obtain ⟨rfl, rfl⟩ := hu
    have hl := h.listed hv hβ
    rw [ends_bind]
    refine (ends_removeBinding_declines h.consistent hl.placed (hinert β hβ)).imp fun done w' hdone => ?_
    obtain ⟨rfl, rfl⟩ := hdone
    exact ⟨rfl, rfl⟩
  obtain ⟨removed, w', hrun, rfl, rfl⟩ := hends.returns
  exact hrun

/-- Examining a settled scope finds nothing and settles it as it was. -/
theorem agree_reduce (h : Kept id settled w) (hv : (w.analysis id).version ≠ none) (s : ScopeId) :
    Agree (reduce id s settled) (reduceThorough id s settled) w fun r w' => Kept id r.2 w' := by
  rw [reduce, reduceThorough]
  refine agree_get ?_
  dsimp only
  split
  · rename_i hsettled
    refine ⟨?_, h⟩
    have hinert := (h.settled s _ hsettled).2 rfl
    rw [bind_of_ok (reduceScope_inert h.tracks hv hinert)]
    change EStateM.Result.ok (0, _) w = .ok (0, _) w
    rw [Table.insert_of_get? hsettled]
  · refine agree_refl ?_
    rw [ends_bind]
    refine (ends_reduceScope_any h.tracks hv s).imp fun removed w' hr => ends_ite (fun hz => ?_) fun _ => ?_
    · obtain ⟨rfl, hinert⟩ := hr.2 hz
      exact h.insert hv hinert
    · exact h.edits hr.1

theorem agree_enter {p : Pass} (h : Kept id p.settled w) (n : NodeId) :
    Agree (enter id n p) (enterThorough id n p) w fun p' w' => Kept id p'.settled w' := by
  rw [enter, enterThorough]
  refine agree_bind (Q := fun _ w' => Kept id p.settled w' ∧ (w'.analysis id).version ≠ none) (agree_refl ?_)
    fun s w' hw' => agree_bind (agree_reduce hw'.1 hw'.2 s) fun r w'' hr => agree_refl hr
  exact ⟨h.refresh, h.tracks.crawled_refresh⟩

theorem ends_collect_kept {p : Pass} (h : Kept id p.settled w) (n : NodeId) :
    (collect id n p).Ends w (fun p' w' => Kept id p'.settled w') Whatever := by
  rw [collect, ends_bind, ends_get]
  refine ends_ite (fun _ => ?_) fun _ => ends_ite (fun _ => h) fun _ => h
  exact h.refresh

theorem agree_runPass (ht : w.tree.Consistent) :
    Agree (runPassBy enter) (runPassBy enterThorough) w fun _ w' => w'.tree.Consistent := by
  have hwalk := agree_traverse (I := fun (p : Pass) u => Kept w.startAnalysis.1 p.settled u)
    (fun n p u hu => agree_enter hu n) (fun n p u hu => ends_collect_kept hu n) (w.tree.size + 1) w.tree.root
    (s := {}) (.start ht)
  have hsame : Agree (runPassBy enter) (runPassBy enterThorough) w fun _ _ => True :=
    agree_get (agree_bind (agree_withAnalysis (agree_get hwalk)) fun p u _ => agree_refl (ends_whatever _))
  exact ⟨hsame.1, (onlyRemoves_runPass w.tree w .refl).mono (fun _ _ hw' => (hw'.remains ht).consistent)
    fun _ _ _ => trivial⟩

theorem agree_runPasses (fuel : Nat) (ht : w.tree.Consistent) :
    Agree (runPassesBy enter fuel) (runPassesBy enterThorough fuel) w fun _ _ => True := by
  induction fuel generalizing w with
  | zero =>
    rw [runPassesBy, runPassesBy]
    exact agree_refl trivial
  | succ fuel ih =>
    rw [runPassesBy, runPassesBy]
    refine agree_bind (agree_runPass ht) fun removed w' ht' => ?_
    split
    · exact agree_refl trivial
    · exact ih ht'

end Job

/-- Skipping settled scopes hides nothing: a run that examines every scope each time ends in the same way, in the same
workspace and with the same report. -/
theorem run_thorough (e : Engine) (w : Workspace) (ht : w.tree.Consistent) :
    e.runBy Job.enterThorough w = e.run w := by
  rw [← e.runBy_enter]
  have hcleared : (modify ({ · with report := {} }) : Job Unit).Ends w (fun _ w' => w'.tree.Consistent) Job.Whatever :=
    ht
  refine (Job.agree_bind (R := fun _ _ => True) (Job.agree_refl hcleared) fun _ w' ht' => Job.agree_get ?_).1
  exact Job.agree_bind (Job.agree_runPasses _ ht') fun _ _ _ => Job.agree_refl (Job.ends_whatever _)

/-- Of `let a = 1; let b = 2; b; c = 3;` both runs take out the first statement and then the last, in the first of two
passes. -/
theorem run_thorough_smallProgram : ∃ report w',
    ({ untilStable := true } : Engine).runBy Job.enterThorough { tree := smallProgram, followers := [.recorder] } =
      .ok report w' ∧
    ({ untilStable := true } : Engine).run { tree := smallProgram, followers := [.recorder] } = .ok report w' ∧
      report.passes = 2 ∧ report.total = 2 ∧ w'.heard = [1, 16] := by
  have hsame := run_thorough { untilStable := true } { tree := smallProgram, followers := [.recorder] }
    (admissible_iff.mp admissible_smallProgram).1
  have hout : answer? (({ untilStable := true } : Engine).run { tree := smallProgram, followers := [.recorder] })
      (fun report w' => (report.passes, report.total, w'.heard)) = some (2, 2, [1, 16]) := by decide +kernel
  obtain ⟨report, w', hrun, hfacts⟩ := answer?_eq_some.mp hout
  obtain ⟨hpasses, hfacts⟩ := Prod.mk.inj hfacts
  obtain ⟨htotal, hheard⟩ := Prod.mk.inj hfacts
  exact ⟨report, w', hsame.trans hrun, hrun, hpasses, htotal, hheard⟩

end DeadCode
