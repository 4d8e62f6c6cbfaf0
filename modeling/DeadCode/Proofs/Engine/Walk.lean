import DeadCode.Proofs.Engine.Trace

/-!
The walk of a pass, with its history. At every moment the analysis follows the tree (`Walked.tracked`); as
long as no removal took away a name that was still referred to, it is up to date, and no name changed its
meaning (`Walked.current`). So each construct is taken out for a binding that nothing refers to in the tree of
that moment (`Excisions`).
-/

namespace DeadCode

open DeadCode.Tree Workspace

variable {P X : Prop} {id : AnalysisId} {w w' : Workspace} {E : SurgeryError → Workspace → Prop}

/-! ## Bringing the analysis up to date -/

theorem Tracked.refresh (h : Tracked X id w) : Tracked X id (w.refresh id) := by
  have htree := (refresh_frame w id).1
  refine ⟨htree ▸ h.tree, h.follows.refresh, ?_⟩
  rw [analysis_refresh h.follows.lt, htree]
  split
  · exact .inr ⟨rfl, sited_crawl h.tree.consistent _⟩
  · exact h.sited

theorem UpToDate.refresh (ht : Tracked X id w) (h : UpToDate X id w) : UpToDate X id (w.refresh id) := by
  unfold UpToDate
  rw [analysis_refresh ht.follows.lt, (refresh_frame w id).1]
  split
  · exact .inr (current_crawl ht.tree.consistent _)
  · exact h

/-- An analysis that has just started. -/
theorem tracked_startAnalysis (hw : WellShaped X w.tree) :
    Tracked X w.startAnalysis.1 w.startAnalysis.2 ∧ UpToDate X w.startAnalysis.1 w.startAnalysis.2 := by
  have hnone : (w.startAnalysis.2.analysis w.startAnalysis.1).version = none := by
    simp [startAnalysis, join, analysis]
  exact ⟨⟨hw, ⟨by simp [startAnalysis, join], by simp [startAnalysis, join]⟩, .inl hnone⟩, .inl hnone⟩

/-! ## Excisions -/

namespace Excision

/-- A construct left the tree, whatever the tables say of it. -/
structure Made (X : Prop) (x : Excision) : Prop where
  wellShaped : WellShaped X x.before.tree
  attached : x.before.tree.Below x.before.tree.root x.binding.path
  detached : ¬ x.after.tree.Below x.after.tree.root x.binding.path
  trims : Trims False X x.before x.after

/-- Nothing in the tree of that moment refers to the declaration of the binding. -/
def Idle (X : Prop) (x : Excision) : Prop :=
  ∃ d ∈ x.before.tree.bindings, d.identifier = x.binding.identifier ∧ x.before.tree.Unused X d

/-- It took away a name that something left in the tree referred to. -/
def Severs (X : Prop) (x : Excision) : Prop := Tree.Severs X x.before.tree x.after.tree

end Excision

/-- Of the excisions `xs` none was harmful, or none can be. -/
def Harmless (X L : Prop) (xs : List Excision) : Prop := L ∨ ∀ x ∈ xs, ¬ x.Severs X

/-- Each construct was taken out of a tree in which nothing referred to its binding, provided that what was
taken out before was harmless. -/
def Excisions (X L : Prop) (xs : List Excision) : Prop :=
  ∀ earlier x later, xs = earlier ++ x :: later → x.Made X ∧ (Harmless X L earlier → x.Idle X)

theorem Harmless.of_append {L : Prop} {xs ys : List Excision} (h : Harmless X L (xs ++ ys)) :
    Harmless X L xs :=
  h.imp_right fun h x hx => h x (List.mem_append_left ys hx)

theorem Excisions.append {L : Prop} {xs : List Excision} {x : Excision} (h : Excisions X L xs)
    (hmade : x.Made X) (hidle : Harmless X L xs → x.Idle X) : Excisions X L (xs ++ [x]) :=
  Lists.forall_split_concat h ⟨hmade, hidle⟩

/-! ## The walk -/

/-- What holds throughout a walk that began with the tree `t₀`. -/
structure Walked (X : Prop) (t₀ : Tree) (id : AnalysisId) (h : History) (w : Workspace) : Prop where
  tracked : Tracked X id w
  current : Harmless X t₀.Local h.excisions →
    UpToDate X id w ∧ Keeps t₀ w.tree ∧ (t₀.Local → w.tree.Local)
  excisions : Excisions X t₀.Local h.excisions
  assigned : ∀ s ∈ h.sightings, ∀ x, s.Assigns x →
    s.node < w.tree.size ∧ (w.tree.Below w.tree.root s.node → w.tree.Assigns s.node x)

variable {t₀ : Tree} {h : History} {β : BindingId} {b : Binding} {n : NodeId}

namespace Walked

theorem start (hw : WellShaped X w.tree) :
    Walked X w.tree w.startAnalysis.1 {} w.startAnalysis.2 := by
  obtain ⟨htracked, hcurrent⟩ := tracked_startAnalysis hw
  refine ⟨htracked, fun _ => ⟨hcurrent, .refl _, id⟩, fun earlier x later he => ?_, fun s hs => ?_⟩
  · exact absurd he.symm (by simp)
  · exact absurd hs List.not_mem_nil

theorem refresh (hw : Walked X t₀ id h w) : Walked X t₀ id h (w.refresh id) := by
  have htree := (refresh_frame w id).1
  refine ⟨hw.tracked.refresh, fun hh => ?_, hw.excisions, ?_⟩
  · rw [htree]
    exact ⟨(hw.current hh).1.refresh hw.tracked, (hw.current hh).2⟩
  · rw [htree]
    exact hw.assigned

/-- A removal that took place. -/
theorem excise (hw : Walked X t₀ id h w) (hd : Doomed X id w β b)
    (hr : Job.Removes X id w b true w') : Walked X t₀ id (h.excise ⟨b, w, w'⟩) w' := by
  obtain ⟨_, hout, htrims⟩ := hr
  obtain ⟨hroot, hgone⟩ := hout rfl
  have hshape := hw.tracked.tree
  refine ⟨htrims.tracked hw.tracked, fun hh => ?_, ?_, fun s hs x ha => ?_⟩
  · obtain ⟨hup, hkeeps, hlocal⟩ := hw.current hh.of_append
    have hclean : w.tree.Local ∨ ¬ Tree.Severs X w.tree w'.tree :=
      hh.imp hlocal fun hno => hno ⟨b, w, w'⟩ (List.mem_append_right _ (List.mem_singleton_self _))
    exact ⟨htrims.upToDate hw.tracked ⟨hup, hclean⟩ hup,
      hkeeps.trans (htrims.keeps hshape ⟨hup, hclean⟩),
      fun hl => htrims.local_tree hshape ⟨hup, hclean⟩ (hlocal hl)⟩
  · refine hw.excisions.append ⟨hshape, hroot, hgone, htrims.mono False.elim⟩ fun hh => ?_
    obtain ⟨d, hd', hdesc, hunused⟩ := hd.declaration (hw.current hh).1 hroot
    exact ⟨d, hd', hdesc.identifier.symm, hunused⟩
  · obtain ⟨hlt, hassigns⟩ := hw.assigned s hs x ha
    have hr := htrims.edits.remains hshape.consistent
    exact ⟨lt_of_lt_of_le hlt hr.size_le, htrims.assigns hshape hlt hassigns⟩

theorem sight (hw : Walked X t₀ id h w) (n : NodeId) (hn : w.tree.contains n = true) :
    Walked X t₀ id (h.sight ⟨n, w.tree, w.analysis id⟩) w := by
  refine ⟨hw.tracked, hw.current, hw.excisions, fun s hs x ha => ?_⟩
  rcases List.mem_append.mp hs with hs | hs
  · exact hw.assigned s hs x ha
  · obtain rfl := List.mem_singleton.mp hs
    have hroot := (contains_iff_below hw.tracked.tree.consistent).mp hn
    exact ⟨hroot.lt_size hw.tracked.tree.consistent, fun _ => ha.1⟩

end Walked

/-- A listed binding in a tree of the right shape. -/
theorem Listed.doomed (h : Listed id w β b) (ht : Tracked X id w) : Doomed X id w β b :=
  ⟨ht, h.crawled, h.lt, h.binding, h.unreferenced⟩

theorem Walked.upheld : Upheld id (Walked X t₀ id) Job.Never where
  refresh _ hw := hw.refresh
  excise hw hl :=
    have hd := hl.doomed hw.tracked
    (Job.ends_removeBinding hd).imp fun _ _ hr hdone => hw.excise hd (hdone ▸ hr)
  sight hw hn _ := hw.sight _ hn

/-- The whole walk does not fail. -/
theorem Job.ends_walkNoted (hw : WellShaped X w.tree) :
    (walkNoted w.startAnalysis.1).Ends w.startAnalysis.2 (fun p w' =>
      Walked X w.tree w.startAnalysis.1 p.2 w' ∧ Collector.Collected p.2.sightings p.1.collector) Never :=
  (ends_walkNoted_traced hw.consistent Walked.upheld (.start hw)).imp fun _ _ h => ⟨h.2.1, h.1.collected⟩

end DeadCode
