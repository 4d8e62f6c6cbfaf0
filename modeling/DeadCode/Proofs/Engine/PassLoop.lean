import DeadCode.Proofs.Engine.Agenda
import DeadCode.Proofs.Engine.Returns
import DeadCode.Proofs.Engine.Runs

/-!
The loop of a pass. Entering a node reduces its scope and so edits the tree while earlier child lists wait on the
stack. The loop ends all the same, takes up no node twice, shows only attached nodes to the collector, and has met all
that stays attached in the order of the tree that it began with (`pass_loop_complete`).
-/

namespace DeadCode

open DeadCode.Tree Workspace

namespace Job

variable {id : AnalysisId} {w : Workspace}

/-- The walk of a pass over the whole tree, as a loop of `k` rounds. -/
def loop (id : AnalysisId) (k : Nat) : Job (Agenda Pass) := do
  rounds (enter id) (collect id) k { stack := [(← get).tree.root], state := {} }

/-- A round that fails is the last. -/
theorem loop_error {k : Nat} {e : SurgeryError} {w' : Workspace} (j : Nat) (h : loop id k w = .error e w') :
    loop id (k + j) w = .error e w' := by
  rw [loop, get_bind] at h ⊢
  rw [rounds_add, bind_of_error h]

/-- Collecting looks at the tree only. -/
theorem preserves_tree_collect (t : Tree) (id : AnalysisId) (n : NodeId) (p : Pass) :
    Preserves (fun w => w.tree = t) (collect id n p) := by
  have hscope : Preserves (fun w => w.tree = t) (scopeFor id n) := by
    apply preserves_bind
    · exact preserves_modify fun w h => ((refresh_frame w id).1).trans h
    · intro _
      exact preserves_bind preserves_get fun _ => preserves_pure _
  apply preserves_bind preserves_get
  intro w
  apply preserves_ite
  · exact preserves_bind hscope fun _ => preserves_bind preserves_get fun _ => preserves_pure _
  · exact preserves_ite (preserves_pure _) (preserves_pure _)

theorem upheld_rooted : Upheld id (fun _ w => w.tree.Rooted) Never where
  refresh {_ w} _ h := by
    rw [(refresh_frame w id).1]
    exact h
  excise h hl := by
    have ht := hl.tracks.consistent
    refine ((ends_removeBinding_returns hl h).and (ends_removeBinding_any hl)).mono (fun done w' hdone hd => ?_)
      fun _ _ he => he.1
    exact h.remains ht ((hdone.2.1 hd).edits.remains ht)
  sight h _ _ := h

/-- Below a program the walk does not fail. -/
theorem walk_returns (ht : w.tree.Consistent) (hr : w.tree.Rooted) : ∃ p w', (do
    let t := (← get).tree
    traverse (enter w.startAnalysis.1) (collect w.startAnalysis.1) (t.size + 1) {} t.root : Job Pass)
      w.startAnalysis.2 = .ok p w' := by
  obtain ⟨p, w', hok, _⟩ := (ends_walkNoted_traced ht upheld_rooted hr).returns
  rw [← walk_of_noted]
  exact ⟨p.1, w', map_eq_ok.mpr ⟨p, hok, rfl⟩⟩

end Job

open Job

/-- The loop of a pass ends, with what the walk of the pass ends in, and on a program it does not fail. However far it
has come, it took no node up twice and showed only nodes that were attached at that moment. When nothing waits any more
it has entered all nodes that are still attached, in the order of the tree that it began with, and has shown each of
them once. -/
theorem pass_loop_complete (w : Workspace) (ht : w.tree.Consistent) :
    (∃ k, ∀ j, k ≤ j → (Agenda.state <$> loop w.startAnalysis.1 j) w.startAnalysis.2 = (do
        let t := (← get).tree
        traverse (enter w.startAnalysis.1) (collect w.startAnalysis.1) (t.size + 1) {} t.root : Job Pass)
          w.startAnalysis.2 ∧
      ∀ a w', loop w.startAnalysis.1 j w.startAnalysis.2 = .ok a w' → a.stack = []) ∧
    (w.tree.Rooted → ∀ k, ∃ a w', loop w.startAnalysis.1 k w.startAnalysis.2 = .ok a w') ∧
    ∀ k a w', loop w.startAnalysis.1 k w.startAnalysis.2 = .ok a w' →
      a.taken.Nodup ∧ a.entered.Sublist a.taken ∧ (a.shown.map Prod.fst).Sublist a.entered ∧
      (∀ x ∈ a.shown, x.2.contains x.1 = true) ∧
      (a.stack = [] →
        a.entered.filter (w.tree.kept w'.tree) = w.tree.walk.filter (w.tree.kept w'.tree) ∧
        (a.shown.map Prod.fst).filter (w.tree.kept w'.tree) = w.tree.walk.filter (w.tree.kept w'.tree) ∧
        ∀ n ∈ w.tree.walk, w'.tree.contains n = true → (a.shown.map Prod.fst).count n = 1) := by
  have henter := fun t n p => (upkeep_edited t w.startAnalysis.1).enter n p
  have hcollect := fun t n p => preserves_tree_collect t w.startAnalysis.1 n p
  have hwalk := rounds_eq_traverse (w := w.startAnalysis.2) (a := { stack := [w.tree.root], state := ({} : Pass) })
    henter hcollect ht ((Below.refl.grounded ht).mono (Nat.le_succ _)) rfl
  refine ⟨hwalk, fun hr k => ?_, fun k a w' hok => ?_⟩
  · cases hloop : loop w.startAnalysis.1 k w.startAnalysis.2 with
    | ok a w' => exact ⟨a, w', rfl⟩
    | error e w' =>
      obtain ⟨j, hj⟩ := hwalk
      obtain ⟨p, u, hreturns⟩ := walk_returns ht hr
      obtain ⟨a, hlater, _⟩ := map_eq_ok.mp ((hj (k + j) (Nat.le_add_left j k)).1.trans hreturns)
      cases (loop_error j hloop).symm.trans hlater
  · have hstart : Agenda.Tells w.tree { stack := [w.tree.root], state := ({} : Pass) } w.startAnalysis.2 := .start ht
    have htells := (ends_rounds henter hcollect ht k hstart).of_ok hok
    refine ⟨htells.once.of_append_left, htells.entered_sub, htells.shown_sub, htells.attached, fun hstack => ?_⟩
    have hentered := htells.order w'.tree (.refl htells.remains.consistent)
    have hshown := htells.shown_eq w'.tree (.refl htells.remains.consistent)
    rw [hstack, List.flatMap_nil, List.append_nil] at hentered
    refine ⟨hentered, hshown.trans hentered, fun n hn hin => ?_⟩
    have hnd := (htells.shown_sub.trans htells.entered_sub).nodup htells.once.of_append_left
    apply List.count_eq_one_of_mem hnd
    have hkept : w.tree.kept w'.tree n = true :=
      htells.remains.kept_iff.mpr ⟨lt_size_of_mem_walk ht hn, (contains_iff_below htells.remains.consistent).mp hin⟩
    have hmem := List.mem_filter.mpr ⟨hn, hkept⟩
    rw [← hentered, ← hshown] at hmem
    exact (List.mem_filter.mp hmem).1

/-- The program `a; function f() { b; } let b;`. -/
def waitingProgram : Tree where
  nodes := #[
    { kind := .program, children := [1, 4, 10] },
    { kind := .expressionStatement, children := [2, 3], parent := some 0 },
    { kind := .identifier, text := "a", parent := some 1 },
    { kind := .other ";", named := false, text := ";", parent := some 1 },
    { kind := .functionDeclaration, children := [5, 6], parent := some 0 },
    { kind := .identifier, field := some .name, text := "f", parent := some 4 },
    { kind := .statementBlock, field := some .body, children := [7], parent := some 4 },
    { kind := .expressionStatement, children := [8, 9], parent := some 6 },
    { kind := .identifier, text := "b", parent := some 7 },
    { kind := .other ";", named := false, text := ";", parent := some 7 },
    { kind := .lexicalDeclaration, children := [11, 12], parent := some 0 },
    { kind := .other "let", named := false, field := some .kind, text := "let", parent := some 10 },
    { kind := .variableDeclarator, children := [13], parent := some 10 },
    { kind := .identifier, field := some .name, text := "b", parent := some 12 }]

/-- The function leaves when the root is entered, and then nothing refers to `b`: its declaration, which waits by then,
leaves when the first statement is entered, and is passed over. -/
theorem pass_loop_complete_waitingProgram :
    (∀ k, ∃ a w', loop 0 k (startAnalysis { tree := waitingProgram }).2 = .ok a w') ∧
    ∃ a w', loop 0 5 (startAnalysis { tree := waitingProgram }).2 = .ok a w' ∧ a.stack = [] ∧
      a.taken = [0, 1, 2, 3, 10] ∧ a.entered = [0, 1, 2, 3] ∧ w'.tree.contains 10 = false ∧
      a.entered.filter (waitingProgram.kept w'.tree) = waitingProgram.walk.filter (waitingProgram.kept w'.tree) ∧
      (a.shown.map Prod.fst).count 3 = 1 := by
  have ht : waitingProgram.Consistent := by decide +kernel
  obtain ⟨_, hreturns, htells⟩ := pass_loop_complete { tree := waitingProgram } ht
  have hout : answer? (loop 0 5 (startAnalysis { tree := waitingProgram }).2) (fun a w' =>
      (a.stack, a.taken, a.entered, w'.tree.contains 10, w'.tree.contains 3)) =
        some ([], [0, 1, 2, 3, 10], [0, 1, 2, 3], false, true) := by decide +kernel
  obtain ⟨a, w', hrun, hout⟩ := answer?_eq_some.mp hout
  simp only [Prod.mk.injEq] at hout
  obtain ⟨hstack, htaken, hentered, hgone, hin⟩ := hout
  obtain ⟨_, _, _, _, hend⟩ := htells 5 a w' hrun
  obtain ⟨horder, _, honce⟩ := hend hstack
  refine ⟨hreturns ⟨rfl, by decide +kernel⟩, a, w', hrun, hstack, htaken, hentered, hgone, horder, ?_⟩
  exact honce 3 (by decide +kernel) hin

end DeadCode
