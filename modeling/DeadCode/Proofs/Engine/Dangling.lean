import DeadCode.Proofs.Engine.Trace
import DeadCode.Proofs.Names.Checks

/-!
What a pass does after its walk. Each candidate has one turn, in which its statement leaves if it can (`Turns`),
and nothing else changes the tree. Main statement: `runPass_removes_dangling`, which says whose turn it is in
terms of what the walk saw, and that no read of a removed name is left.
-/

namespace DeadCode

open DeadCode.Tree Workspace

/-- The turns that lead from one workspace to another. -/
inductive Turns : Workspace → List Turn → Workspace → Prop
  | nil {w : Workspace} : Turns w [] w
  | cons {u : Turn} {us : List Turn} {w' : Workspace} :
      Job.removeCandidate u.name u.assignment u.before = .ok u.removed u.after →
      Job.TakesTurn u.before u.name u.assignment u.removed u.after → Turns u.after us w' →
      Turns u.before (u :: us) w'

/-- The name was assigned last by the statement of `n`, and read nowhere. -/
def Dangles (ss : List Sighting) (name : String) (n : NodeId) : Prop :=
  LastAssigned ss name n ∧ ∀ s ∈ ss, ¬ s.Reads name

/-- Whose turn it was. -/
def Turn.candidate (u : Turn) : String × NodeId := (u.name, u.assignment)

/-- A place from which a statement can be removed. -/
def Tree.Loose (t : Tree) (n : NodeId) : Prop :=
  ∃ q, t.parent n = some q ∧ ((t.kind q).listsStatements = true ∨ (t.kind q).hasSlot (t.node n).field = true)

variable {id : AnalysisId} {w w' : Workspace} {u : Turn} {us : List Turn} {name : String} {n : NodeId}
  {E : SurgeryError → Workspace → Prop}

theorem Job.TakesTurn.edits {done : Bool} (h : TakesTurn w name n done w') : Edits w w' := by
  rcases h with ⟨_, s, q, t, _, _, _, hcut, rfl⟩ | ⟨_, rfl, _⟩
  · exact .report _ (.of_statementCut hcut)
  · exact .refl

theorem Job.TakesTurn.report {done : Bool} (h : TakesTurn w name n done w') :
    w'.report.total = w.report.total + done.toNat ∧ w'.report.passes = w.report.passes := by
  rcases h with ⟨rfl, s, q, t, _, _, _, _, rfl⟩ | ⟨rfl, rfl, _⟩
  · change ((w.settle t s).report.record _).total = _ ∧ (w.settle t s).report.passes = _
    rw [Report.total_record, (settle_frame w t s).2.2.2]
    exact ⟨rfl, rfl⟩
  · exact ⟨rfl, rfl⟩

namespace Turns

theorem edits (h : Turns w us w') : Edits w w' := by
  induction h with
  | nil => exact .refl
  | cons _ hturn _ ih => exact hturn.edits.trans ih

/-- The edits before and after a turn. -/
theorem edits_of_mem (h : Turns w us w') (hu : u ∈ us) : Edits w u.before ∧ Edits u.after w' ∧
    Job.TakesTurn u.before u.name u.assignment u.removed u.after := by
  induction h with
  | nil => exact absurd hu List.not_mem_nil
  | cons _ hturn hrest ih =>
    rcases List.mem_cons.mp hu with rfl | hu
    · exact ⟨.refl, hrest.edits, hturn⟩
    · obtain ⟨hbefore, hafter, htakes⟩ := ih hu
      exact ⟨hturn.edits.trans hbefore, hafter, htakes⟩

theorem report (h : Turns w us w') : w'.report.total = w.report.total + us.countP Turn.removed ∧
    w'.report.passes = w.report.passes := by
  induction h with
  | nil => exact ⟨rfl, rfl⟩
  | @cons u us w' _ hturn _ ih =>
    have hone : (if u.removed = true then 1 else 0) = u.removed.toNat := by cases u.removed <;> rfl
    rw [ih.1, ih.2, hturn.report.1, hturn.report.2, List.countP_cons]
    exact ⟨by omega, rfl⟩

end Turns

namespace Job

/-! ## The turns of a pass -/

/-- Candidates take their turns in the order of the list. -/
theorem ends_removeCandidatesNoted_turns {P : Prop} (ht : w.tree.Consistent) (c : Collector) (h : History)
    (hturn : ∀ e ∈ c.candidates.entries, ∀ w', Edits w w' →
      (removeCandidate e.1 e.2).Ends w' (fun _ _ => True) fun _ _ => P) :
    (removeCandidatesNoted c h).Ends w (fun r w' => ∃ us, Turns w us w' ∧
      r.2 = { h with turns := h.turns ++ us } ∧ us.map Turn.candidate = c.candidates.entries) fun _ _ => P := by
  rw [removeCandidatesNoted]
  have hloop : ∀ (es : List (String × NodeId)) (k : Nat) (h : History) {w : Workspace}, w.tree.Consistent →
      (∀ e ∈ es, ∀ w', Edits w w' → (removeCandidate e.1 e.2).Ends w' (fun _ _ => True) fun _ _ => P) →
      (es.foldlM (fun (n : Nat × History) (e : String × NodeId) => do
        let done ← removeCandidateNoted e.1 e.2 n.2
        return (if done.1 then n.1 + 1 else n.1, done.2)) (k, h)).Ends w (fun r w' =>
        ∃ us, Turns w us w' ∧ r.2 = { h with turns := h.turns ++ us } ∧ us.map Turn.candidate = es)
        fun _ _ => P := by
    intro es
    induction es with
    | nil =>
      intro k h w _ _
      exact ⟨[], .nil, by simp, rfl⟩
    | cons e es ih =>
      intro k h w ht hturn
      rw [List.foldlM_cons, ends_bind, ends_bind, removeCandidateNoted, ends_bind, ends_get, ends_bind]
      refine ((ends_removeCandidate ht e.1 e.2).and ((hturn e List.mem_cons_self w .refl).and (ends_self _))).mono
        (fun done u hdone => ?_) fun _ _ he => he.2.1
      obtain ⟨hdone, _, hrun⟩ := hdone
      rw [ends_bind, ends_get, ends_pure, ends_pure]
      refine (ih _ _ (hdone.edits.remains ht).consistent fun e' he' w' hw' =>
        hturn e' (List.mem_cons_of_mem e he') w' (hdone.edits.trans hw')).imp fun r w' hr => ?_
      obtain ⟨us, hus, hhistory, hmap⟩ := hr
      refine ⟨⟨e.1, e.2, w, u, done⟩ :: us, .cons (u := ⟨e.1, e.2, w, u, done⟩) hrun hdone hus, ?_, ?_⟩
      · rw [hhistory]
        simp [History.turn]
      · rw [List.map_cons, hmap]
        rfl
  exact hloop _ 0 h ht hturn

/-- A pass, from its walk to its turns. The walk is that of the state `p`, which it left in the workspace `u`; `v`
is the workspace after the turns. -/
structure Passage (id : AnalysisId) (w : Workspace) (p : Pass × History) (u v : Workspace) (h : History) :
    Prop where
  consistent : w.tree.Consistent
  traced : Traced w.tree w.report id p u
  visits : ∀ t, Remains u.tree t → (p.2.sightings.map Sighting.node).filter (w.tree.kept t) =
    w.tree.walk.filter (w.tree.kept t)
  turns : Turns (u.leave (.analysis id)) h.turns v
  history : h = { p.2 with turns := h.turns }
  candidates : h.turns.map Turn.candidate = p.1.collector.candidates.entries

/-- `P` is what an error in the walk or in a turn would prove. -/
theorem ends_runPassNoted_passage {P : Prop} {J : History → Workspace → Prop} (ht : w.tree.Consistent)
    (hJ : Upheld w.startAnalysis.1 J fun _ _ => P) (hj : J {} w.startAnalysis.2)
    (hturn : ∀ p u, Traced w.tree w.report w.startAnalysis.1 p u → J p.2 u →
      (∀ t, Remains u.tree t → (p.2.sightings.map Sighting.node).filter (w.tree.kept t) =
        w.tree.walk.filter (w.tree.kept t)) →
      ∀ e ∈ p.1.collector.candidates.entries, ∀ w', Edits (u.leave (.analysis w.startAnalysis.1)) w' →
        (removeCandidate e.1 e.2).Ends w' (fun _ _ => True) fun _ _ => P) :
    runPassNoted.Ends w (fun r w' => ∃ p u v, Passage w.startAnalysis.1 w p u v r.2 ∧ J p.2 u ∧
      withAnalysis walkNoted w = .ok p (u.leave (.analysis w.startAnalysis.1)) ∧
      w' = { v with report := { v.report with passes := v.report.passes + 1 } } ∧
      r.1 = v.report.total - w.report.total) fun _ _ => P := by
  rw [runPassNoted, ends_bind, ends_get, ends_bind]
  have hwalk := ends_withAnalysis (E := fun _ _ => P) (j := walkNoted) (w := w)
    (Q := fun p u' => ∃ u, u' = u.leave (.analysis w.startAnalysis.1) ∧
      Traced w.tree w.report w.startAnalysis.1 p u ∧ J p.2 u ∧
      ∀ t, Remains u.tree t → (p.2.sightings.map Sighting.node).filter (w.tree.kept t) =
        w.tree.walk.filter (w.tree.kept t))
    ((ends_walkNoted_traced ht hJ hj).imp fun p u h => ⟨u, rfl, h⟩)
  refine (hwalk.and (ends_self _)).mono (fun p u' hu => ?_) fun _ _ he => he.1
  obtain ⟨⟨u, rfl, htraced, hju, hvisits⟩, hok⟩ := hu
  rw [ends_bind]
  refine (ends_removeCandidatesNoted_turns (w := u.leave (.analysis w.startAnalysis.1))
    htraced.remains.consistent p.1.collector p.2 (hturn p u htraced hju hvisits)).imp fun r v hr => ?_
  obtain ⟨us, hturns, hhistory, hmap⟩ := hr
  rw [ends_bind, ends_modify, ends_bind, ends_get, ends_pure]
  rw [htraced.turns, List.nil_append] at hhistory
  refine ⟨p, u, v, ⟨ht, htraced, hvisits, ?_, ?_, ?_⟩, hju, hok, rfl, rfl⟩
  · rw [hhistory]
    exact hturns
  · rw [hhistory]
  · rw [hhistory]
    exact hmap

theorem ends_runPassNoted_any (ht : w.tree.Consistent) : runPassNoted.Ends w (fun r w' =>
    ∃ p u v, Passage w.startAnalysis.1 w p u v r.2 ∧
      withAnalysis walkNoted w = .ok p (u.leave (.analysis w.startAnalysis.1)) ∧
      w' = { v with report := { v.report with passes := v.report.passes + 1 } } ∧
      r.1 = v.report.total - w.report.total) Whatever := by
  refine (ends_runPassNoted_passage (P := True) (J := fun _ _ => True) ht ?_ trivial
    fun _ _ _ _ _ _ _ _ _ => ends_whatever _).imp fun r w' h => ?_
  · exact ⟨fun _ _ => trivial, fun _ _ => (ends_whatever _).imp fun _ _ _ _ => trivial, fun _ _ _ => trivial⟩
  · obtain ⟨p, u, v, hp, _, hrest⟩ := h
    exact ⟨p, u, v, hp, hrest⟩

variable {p : Pass × History} {u v : Workspace} {h : History}

namespace Passage

theorem remains (hp : Passage id w p u v h) : Remains w.tree v.tree :=
  hp.traced.remains.trans (hp.turns.edits.remains hp.traced.remains.consistent)

theorem sightings (hp : Passage id w p u v h) : h.sightings = p.2.sightings := by rw [hp.history]

/-- Every node that is left at any time after the walk was seen. -/
theorem seen (hp : Passage id w p u v h) {t : Tree} (hr : Remains u.tree t) {m : NodeId} (hm : m < w.tree.size)
    (hroot : t.Below t.root m) : ∃ s ∈ h.sightings, s.node = m := by
  have hall := hp.traced.remains.trans hr
  have hkept : w.tree.kept t m = true := hall.kept_iff.mpr ⟨hm, hroot⟩
  have hwalk : m ∈ w.tree.walk.filter (w.tree.kept t) :=
    List.mem_filter.mpr ⟨(mem_walk_iff (hp.consistent)).mpr (hall.attached m hm hroot), hkept⟩
  rw [← hp.visits t hr] at hwalk
  obtain ⟨s, hs, rfl⟩ := List.mem_map.mp (List.mem_filter.mp hwalk).1
  exact ⟨s, hp.sightings ▸ hs, rfl⟩

/-- Candidates are the dangling names, each once. -/
theorem candidate_iff (hp : Passage id w p u v h) (name : String) (n : NodeId) :
    (∃ t ∈ h.turns, t.name = name ∧ t.assignment = n) ↔ Dangles h.sightings name n := by
  rw [hp.sightings, Dangles, ← hp.traced.collected.candidate]
  constructor
  · rintro ⟨t, ht, rfl, rfl⟩
    refine Table.get?_of_mem hp.traced.collected.distinct ?_
    rw [← hp.candidates]
    exact List.mem_map_of_mem ht
  · intro hget
    have hmem := Table.mem_of_get? hget
    rw [← hp.candidates] at hmem
    obtain ⟨t, ht, he⟩ := List.mem_map.mp hmem
    exact ⟨t, ht, congrArg Prod.fst he, congrArg Prod.snd he⟩

theorem names_nodup (hp : Passage id w p u v h) : (h.turns.map Turn.name).Nodup := by
  have hd : (p.1.collector.candidates.entries.map Prod.fst).Nodup := hp.traced.collected.distinct
  rw [← hp.candidates, List.map_map] at hd
  exact hd

/-- The statement of a candidate leaves in its turn if it is attached and in a list or a slot. -/
theorem turn (hp : Passage id w p u v h) {t : Turn} (ht : t ∈ h.turns) : ∃ s ∈ h.sightings,
    s.node = t.assignment ∧ s.Assigns t.name ∧ ∃ statement, s.tree.parent s.node = some statement ∧
      (t.removed = true ↔ t.before.tree.contains statement = true ∧ t.before.tree.Loose statement) ∧
      (t.removed = true → t.after.tree.contains statement = false) := by
  obtain ⟨⟨earlier, s, later, hs, hn, ha, _⟩, _⟩ := (hp.candidate_iff t.name t.assignment).mp ⟨t, ht, rfl, rfl⟩
  have hmem : s ∈ h.sightings := hs ▸ List.mem_append_right _ List.mem_cons_self
  obtain ⟨statement, hstatement, hks⟩ := ha.1.statement
  obtain ⟨hbefore, _, hturn⟩ := hp.turns.edits_of_mem ht
  have hprec := (hp.traced.sighted s (hp.sightings ▸ hmem)).edits (w := u.leave (.analysis id)) hbefore
  have hr := hprec.remains
  have hct := hr.consistent
  have hk : s.tree.kind s.node = .assignmentExpression := ha.1.kind
  refine ⟨s, hmem, hn, ha, statement, hstatement, ?_⟩
  rw [← hn] at hturn
  rcases hturn with ⟨hdone, s', q, t', hs', hroot, hq, hcut, hafter⟩ | ⟨hdone, hafter, hplace⟩
  · -- an attached assignment stands where it stood
    have hpar := hr.parent_eq s.node (lt_size_of_parent hstatement) (.step hs' hroot)
    obtain rfl : s' = statement := Option.some.inj (hs'.symm.trans (hpar.trans hstatement))
    refine ⟨⟨fun _ => ⟨(contains_iff_below hct).mpr hroot, q, hq, ?_⟩, fun _ => hdone⟩, fun _ => ?_⟩
    · exact hcut.imp And.left And.left
    · obtain ⟨gone, hcut⟩ := hcut.cut
      have hout : ¬ t'.Below t'.root s' := fun hb =>
        hcut.not_below_gone hct (lt_size_of_parent hq) hb hcut.node_mem .refl
      rw [hafter]
      change (t.before.settle t' s').tree.contains s' = false
      rw [tree_settle]
      rw [← contains_iff_below (hcut.consistent hct)] at hout
      simpa using hout
  · rw [hdone]
    refine ⟨⟨fun h => (by cases h), ?_⟩, fun h => (by cases h)⟩
    rintro ⟨hin, q, hq, hloose⟩
    have hroot := (contains_iff_below hct).mp hin
    obtain ⟨q', hq', hlist, hslot⟩ := hplace statement (hprec.statement statement hk hstatement hks hroot) hroot
    obtain rfl := Option.some.inj (hq.symm.trans hq')
    rw [hlist, hslot] at hloose
    simp at hloose

/-- After the walk no read of a dangling name is left. -/
theorem only_targets_left (hp : Passage id w p u v h) {t : Tree} (hr : Remains u.tree t) {name : String}
    (hread : ∀ s ∈ h.sightings, ¬ s.Reads name) {m : NodeId} (hroot : t.Below t.root m)
    (hk : (t.kind m).spellsName = true) (htext : t.text m = name) : t.isAssignmentTarget m = true := by
  have hall := hp.traced.remains.trans hr
  obtain ⟨hlt, _, _⟩ := hall.old hroot (by rintro he; rw [he] at hk; cases hk)
  obtain ⟨s, hs, rfl⟩ := hp.seen hr hlt hroot
  have hprec := hp.traced.sighted s (hp.sightings ▸ hs)
  have hrs := hprec.remains.trans hr
  have hlts := hprec.attached.lt_size hprec.consistent
  by_contra htarget
  refine hread s hs ⟨hrs.kind_eq _ hlts ▸ hk, (hrs.text_eq _ hlts).symm.trans htext, ?_⟩
  rw [← hrs.isAssignmentTarget_eq hprec.consistent hlts hroot]
  simpa using htarget

theorem only_targets (hp : Passage id w p u v h) {name : String} (hread : ∀ s ∈ h.sightings, ¬ s.Reads name)
    {m : NodeId} (hroot : v.tree.Below v.tree.root m) (hk : (v.tree.kind m).spellsName = true)
    (htext : v.tree.text m = name) : v.tree.isAssignmentTarget m = true :=
  hp.only_targets_left (hp.turns.edits.remains hp.traced.remains.consistent) hread hroot hk htext

end Passage

end Job

/-- The names whose statements a pass removes after its walk are those that the walk saw assigned and never
read. The statement of the last assignment leaves if it can, and no node that spells the name is left, targets
of assignments apart. -/
theorem runPass_removes_dangling (w w' : Workspace) (ht : w.tree.Consistent) (k : Nat)
    (hrun : Job.runPass w = .ok k w') : ∃ p h w₁ w₂, Job.withAnalysis Job.walkNoted w = .ok p w₁ ∧
      Job.runPassNoted w = .ok (k, h) w' ∧ h.sightings = p.2.sightings ∧ Turns w₁ h.turns w₂ ∧
      w'.tree = w₂.tree ∧ w'.tree.Consistent ∧ (h.turns.map Turn.name).Nodup ∧
      (∀ name n, (∃ t ∈ h.turns, t.name = name ∧ t.assignment = n) ↔ Dangles p.2.sightings name n) ∧
      ∀ t ∈ h.turns,
        (∃ s ∈ p.2.sightings, s.node = t.assignment ∧ s.Assigns t.name ∧
          ∃ statement, s.tree.parent s.node = some statement ∧
            (t.removed = true ↔ t.before.tree.contains statement = true ∧ t.before.tree.Loose statement) ∧
            (t.removed = true → t.after.tree.contains statement = false)) ∧
        ∀ m, w'.tree.contains m = true → (w'.tree.kind m).spellsName = true → w'.tree.text m = t.name →
          w'.tree.isAssignmentTarget m = true := by
  have hpass := Job.ends_runPassNoted_any ht
  obtain ⟨h, hnoted⟩ := Job.runPassNoted_ok hrun
  obtain ⟨p, u, v, hp, hwalk, hw', _⟩ := hpass.of_ok hnoted
  have htree : w'.tree = v.tree := by rw [hw']
  refine ⟨p, h, _, v, hwalk, hnoted, hp.sightings, hp.turns, htree, htree ▸ hp.remains.consistent, hp.names_nodup,
    ?_, fun t ht => ⟨?_, ?_⟩⟩
  · rw [← hp.sightings]
    exact hp.candidate_iff
  · rw [← hp.sightings]
    exact hp.turn ht
  · rw [htree]
    intro m hin hk htext
    exact hp.only_targets ((hp.candidate_iff t.name t.assignment).mp ⟨t, ht, rfl, rfl⟩).2
      ((contains_iff_below hp.remains.consistent).mp hin) hk htext

/-- The turn of `c` in `let a = 1; let b = 2; b; c = 3;`. -/
theorem runPass_removes_dangling_smallProgram : ∃ k h w' t,
    Job.runPassNoted { tree := smallProgram } = .ok (k, h) w' ∧ h.turns = [t] ∧ t.name = "c" ∧
      Dangles h.sightings "c" 17 ∧ t.removed = true ∧ t.before.tree.contains 16 = true ∧
      t.after.tree.contains 16 = false ∧
      ∀ m, w'.tree.contains m = true → (w'.tree.kind m).spellsName = true → w'.tree.text m = "c" →
        w'.tree.isAssignmentTarget m = true := by
  have hout : answer? (Job.runPassNoted { tree := smallProgram }) (fun r _ =>
      (r.2.turns.map fun t => (t.name, t.assignment, t.removed),
        r.2.sightings.all fun s => s.node != 17 || s.tree.parent s.node == some 16)) =
      some ([("c", 17, true)], true) := by decide +kernel
  obtain ⟨⟨k, h⟩, w', hrun, hout⟩ := answer?_eq_some.mp hout
  obtain ⟨hturns, hseen⟩ := Prod.mk.inj hout
  obtain ⟨t, ht, hturn⟩ := List.map_eq_singleton_iff.mp hturns
  simp only [Prod.mk.injEq] at hturn
  obtain ⟨hname, hn, hremoved⟩ := hturn
  have hpass : Job.runPass { tree := smallProgram } = .ok k w' := by
    rw [← Job.runPass_of_noted]
    change EStateM.map Prod.fst Job.runPassNoted _ = _
    rw [EStateM.map, hrun]
  obtain ⟨p, h', w₁, w₂, _, hnoted, hsightings, _, _, _, _, hwhose, hall⟩ :=
    runPass_removes_dangling _ w' (by decide +kernel) k hpass
  rw [hrun] at hnoted
  cases hnoted
  have hmem : t ∈ h.turns := ht ▸ List.mem_singleton_self t
  obtain ⟨⟨s, hs, hsn, _, statement, hstatement, hiff, hafter⟩, honly⟩ := hall t hmem
  have hs16 : s.tree.parent s.node = some 16 := by
    have := List.all_eq_true.mp hseen s (hsightings ▸ hs)
    simpa [hsn, hn] using this
  obtain rfl := Option.some.inj (hs16.symm.trans hstatement)
  have hdangles := (hwhose "c" 17).mp ⟨t, hmem, hname, hn⟩
  exact ⟨k, h, w', t, hrun, ht, hname, hsightings ▸ hdangles, hremoved, (hiff.mp hremoved).1,
    hafter hremoved, hname ▸ honly⟩

end DeadCode
