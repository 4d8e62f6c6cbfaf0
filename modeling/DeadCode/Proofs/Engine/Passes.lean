import DeadCode.Proofs.Engine.Walk

/-!
Passes and runs. From a tree of the right shape no pass fails, and it leaves such a tree. What one pass comes
to is `Passed`; a run is a series of passes, each on an analysis of its own (`ends_runPassesNoted`,
`run_ends`).
-/

namespace DeadCode

open DeadCode.Tree Workspace

variable {X : Prop} {w w' : Workspace} {h : History}

theorem Excisions.mono {L L' : Prop} {xs : List Excision} (hL : L' → L) (hx : Excisions X L xs) :
    Excisions X L' xs :=
  fun earlier x later he => (hx earlier x later he).imp_right fun hidle hh => hidle (hh.imp_left hL)

/-- What a pass with the history `h` made of `w`. -/
structure Passed (X : Prop) (w : Workspace) (h : History) (w' : Workspace) : Prop where
  wellShaped : WellShaped X w'.tree
  keeps : Harmless X w.tree.Local h.excisions → Keeps w.tree w'.tree ∧ (w.tree.Local → w'.tree.Local)
  excisions : Excisions X w.tree.Local h.excisions

namespace Job

/-- The turns of candidates that are in place while they are attached. -/
theorem ends_removeCandidatesNoted (hw : WellShaped X w.tree) {c : Collector}
    (hc : ∀ e ∈ c.candidates.entries,
      e.2 < w.tree.size ∧ (w.tree.Below w.tree.root e.2 → w.tree.Assigns e.2 e.1)) (h : History) :
    (removeCandidatesNoted c h).Ends w
      (fun r w' => r.2.excisions = h.excisions ∧ Trims True X w w') Never := by
  rw [removeCandidatesNoted]
  refine ends_foldlM (I := fun (r : Nat × History) u => r.2.excisions = h.excisions ∧ Trims True X w u)
    (fun e he r u hr => ?_) ⟨rfl, .refl⟩
  obtain ⟨hlt, ha⟩ := hc e he
  have hturn := ends_removeCandidate_assigns (P := True) (hr.2.wellShaped hw) fun hroot =>
    hr.2.assigns hw hlt ha hroot
  rw [ends_bind, removeCandidateNoted, ends_bind, ends_get, ends_bind]
  refine hturn.imp fun done u' hdone => ?_
  exact ⟨hr.1, hr.2.trans hdone.2⟩

theorem ends_runPassNoted (hw : WellShaped X w.tree) :
    runPassNoted.Ends w (fun r w' => Passed X w r.2 w') Never := by
  rw [runPassNoted, ends_bind, ends_get, ends_bind]
  refine ends_withAnalysis ((ends_walkNoted hw).imp fun p u hu => ?_)
  obtain ⟨hwalked, hcollected⟩ := hu
  have hshape : WellShaped X (u.leave (.analysis w.startAnalysis.1)).tree := hwalked.tracked.tree
  have hcandidates : ∀ e ∈ p.1.collector.candidates.entries, e.2 < u.tree.size ∧
      (u.tree.Below u.tree.root e.2 → u.tree.Assigns e.2 e.1) := by
    intro e he
    obtain ⟨⟨earlier, s, later, hs, hn, ha, _⟩, _⟩ :=
      (hcollected.candidate e.1 e.2).mp (Table.get?_of_mem hcollected.distinct he)
    obtain ⟨hlt, hassigns⟩ := hwalked.assigned s (by rw [hs]; simp) e.1 ha
    exact hn ▸ ⟨hlt, hassigns⟩
  rw [ends_bind]
  refine (ends_removeCandidatesNoted hshape hcandidates p.2).imp fun r w' hr => ?_
  obtain ⟨hexcisions, htrims⟩ := hr
  rw [ends_bind, ends_modify, ends_bind, ends_get, ends_pure]
  refine ⟨htrims.wellShaped hshape, fun hh => ?_, ?_⟩
  · rw [hexcisions] at hh
    obtain ⟨_, hkeeps, hlocal⟩ := hwalked.current hh
    exact ⟨hkeeps.trans (htrims.keeps hshape trivial),
      fun hl => htrims.local_tree hshape trivial (hlocal hl)⟩
  · rw [hexcisions]
    exact hwalked.excisions

/-- Each pass goes on from where the last one ended. -/
theorem ends_runPassesNoted (fuel : Nat) (hw : WellShaped X w.tree) : (runPassesNoted fuel).Ends w
    (fun hs w' => WellShaped X w'.tree ∧ (w.tree.Local → Keeps w.tree w'.tree) ∧
      ∀ h ∈ hs, Excisions X w.tree.Local h.excisions) Never := by
  induction fuel generalizing w with
  | zero => exact ⟨hw, fun _ => .refl _, fun h hh => absurd hh List.not_mem_nil⟩
  | succ fuel ih =>
    rw [runPassesNoted, ends_bind]
    refine (ends_runPassNoted hw).imp fun r u hu => ends_ite (fun _ => ?_) fun _ => ?_
    · refine ⟨hu.wellShaped, fun hl => (hu.keeps (.inl hl)).1, fun h hh => ?_⟩
      rw [List.mem_singleton.mp hh]
      exact hu.excisions
    · rw [ends_bind]
      refine (ih hu.wellShaped).imp fun hs w' hw' => ?_
      obtain ⟨hshape, hkeeps, hexcisions⟩ := hw'
      have hlocal : w.tree.Local → u.tree.Local := fun hl => (hu.keeps (.inl hl)).2 hl
      refine ⟨hshape, fun hl => (hu.keeps (.inl hl)).1.trans (hkeeps (hlocal hl)), fun h hh => ?_⟩
      rcases List.mem_cons.mp hh with rfl | hh
      · exact hu.excisions
      · exact (hexcisions h hh).mono hlocal

end Job

/-- A run returns, and so does the run with its history, with the same report and the same workspace. -/
theorem run_ends (e : Engine) (hw : WellShaped X w.tree) : ∃ report hs w',
    e.run w = .ok report w' ∧ e.runNoted w = .ok (report, hs) w' ∧ WellShaped X w'.tree ∧
      (w.tree.Local → Keeps w.tree w'.tree) ∧ ∀ h ∈ hs, Excisions X w.tree.Local h.excisions := by
  have hends : e.runNoted.Ends w (fun r w' => WellShaped X w'.tree ∧
      (w.tree.Local → Keeps w.tree w'.tree) ∧ ∀ h ∈ r.2, Excisions X w.tree.Local h.excisions)
      Job.Never := by
    rw [Engine.runNoted, Job.ends_bind, Job.ends_modify, Job.ends_bind, Job.ends_get, Job.ends_bind]
    exact (Job.ends_runPassesNoted (w := { w with report := {} }) _ hw).imp fun hs w' hw' => hw'
  obtain ⟨⟨report, hs⟩, w', hok, hrest⟩ := hends.returns
  exact ⟨report, hs, w', Engine.run_eq_ok_iff.mpr ⟨hs, hok⟩, hok, hrest⟩

/-- A pass of a series begins with a tree of the right shape. -/
theorem Passes.began {hs : List History} (hp : Passes w hs w') (hw : WellShaped X w.tree) (hh : h ∈ hs) :
    ∃ u k u', Job.runPassNoted u = .ok (k, h) u' ∧ WellShaped X u.tree ∧ (w.tree.Local → u.tree.Local) := by
  induction hp with
  | nil => exact absurd hh List.not_mem_nil
  | @cons w u w' k h₁ hs hrun _ ih =>
    rcases List.mem_cons.mp hh with rfl | hh
    · exact ⟨w, k, u, hrun, hw, id⟩
    · have hpassed := (Job.ends_runPassNoted hw).of_ok hrun
      obtain ⟨u', k', u'', hrun', hw', hl⟩ := ih hpassed.wellShaped hh
      exact ⟨u', k', u'', hrun', hw', fun h => hl ((hpassed.keeps (.inl h)).2 h)⟩

end DeadCode
