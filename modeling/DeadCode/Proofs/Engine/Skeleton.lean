import DeadCode.Proofs.Engine.Dangling
import DeadCode.Proofs.Engine.Reaped

/-!
Runs keep the skeleton of the tree. Whatever the policies take out, in whatever order, goes by one of two removals
(`onlyReaps_run`): a statement is removed, or a member leaves a list that can do without it. Both keep the skeleton.
The only requirement is that declarators stand in declarations (`run_keeps_skeleton`).
-/

namespace DeadCode

open DeadCode.Tree Workspace

variable {t : Tree} {id : AnalysisId} {w : Workspace} {n q : NodeId} {β : BindingId} {b : Binding}

namespace Job

/-- Whatever comes out, the tree is trimmed at most. -/
def OnlyTrims (t : Tree) {α : Type} (j : Job α) (w : Workspace) : Prop :=
  j.Ends w (fun _ w' => Trimmed t w'.tree) fun _ w' => Trimmed t w'.tree

/-- Whatever comes out, the tree has gone through removals only. -/
def OnlyReaps (t : Tree) {α : Type} (j : Job α) (w : Workspace) : Prop :=
  j.Ends w (fun _ w' => Reaped t w'.tree) fun _ w' => Reaped t w'.tree

theorem onlyReaps_removeStatement (h : Reaped t w.tree) (n : NodeId) : (removeStatement n).OnlyReaps t w := by
  rw [OnlyReaps, removeStatement, ends_bind, ends_get]
  split
  · exact h
  · exact h
  · rename_i u hu
    change Reaped t (w.settle u n).tree
    rw [tree_settle]
    exact h.tail (.statement hu)

/-- A statement is removed and recorded, or nothing happens. -/
theorem onlyReaps_recorded (h : Reaped t w.tree) (n m : NodeId) (name : String) (what : Removed) :
    OnlyReaps t (do
      if ← removeStatement n then
        modify (·.record name what m)
        return true
      else return false) w := by
  rw [OnlyReaps, ends_bind]
  refine Ends.imp (onlyReaps_removeStatement h n) fun done w' hw' => ?_
  cases done <;> exact hw'

theorem ends_detach_ok (hc : w.tree.Consistent) (hp : w.tree.parent n = some q) :
    (detach n).Ends w (fun _ w' => w.tree.detach n = .ok w'.tree) Never := by
  obtain ⟨u, _, hok, _⟩ := detach_eq_ok hc hp
  rw [detach, ends_bind, ends_get, hok]
  exact congrArg Except.ok (tree_settle w u n).symm

/-- The member leaves, and with it a clause that it leaves empty. -/
theorem ends_removeListMember_reapStep (hc : w.tree.Consistent) (hm : w.tree.MayLeave q n)
    (hclause : w.tree.kind q = .importClause → ∃ s, w.tree.parent q = some s ∧ w.tree.kind s = .importStatement) :
    (removeListMember n).Ends w (fun _ w' => ReapStep w.tree w'.tree) Never := by
  rw [removeListMember, ends_bind, ends_get, ends_bind]
  refine (ends_detach_ok hc hm.parent).imp fun _ w₁ hok => ?_
  obtain ⟨gone, hcut⟩ := detached_of_parent hc hm.parent hok
  have hc₁ := hcut.toCut.consistent hc
  rw [hm.parent]
  simp only [ends_bind, ends_get]
  split
  · rename_i hempty
    have hq := hc.parent_lt hm.parent
    obtain ⟨s, hps, hks⟩ := hclause ((hcut.kind_eq q hq).symm.trans hempty.1)
    have hroot := hm.attached.of_child hc hm.parent
    have hstay : q ∉ gone := fun hg => not_below_of_parent hc hroot (hcut.parent_of_gone q hg) .refl
    have hps₁ : w₁.tree.parent q = some s := (hcut.parent_kept q hq hstay).trans hps
    have hks₁ : w₁.tree.kind s = .importStatement := (hcut.kind_eq s (hc.parent_lt hps)).trans hks
    rw [hps₁, ends_bind]
    refine (ends_detach_ok hc₁ hps₁).imp fun _ w₂ hok₂ => ?_
    simp only [ends_bind, ends_get]
    split
    · rename_i word hword
      obtain ⟨_, hcut₂⟩ := detached_of_parent hc₁ hps₁ hok₂
      have hc₂ := hcut₂.toCut.consistent hc₁
      have hpw := (hc₂.mem_children s word).mp (List.mem_of_find?_eq_some hword)
      rw [ends_bind]
      refine (ends_detach_ok hc₂ hpw).imp fun _ w₃ hok₃ => ?_
      exact .collapse hm hok hempty hps₁ hks₁ (.clauseAndWord hok₂ hword hok₃)
    · rename_i hnone
      have hno : ∀ x ∈ w₂.tree.children s, w₂.tree.kind x ≠ .fromWord := by
        simpa using List.find?_eq_none.mp (Option.eq_none_iff_forall_ne_some.mpr hnone)
      exact .collapse hm hok hempty hps₁ hks₁ (.clause hok₂ hno)
  · rename_i hleft
    exact .member hm hok hleft

theorem onlyReaps_removeListMember (ht : t.Consistent) (h : Reaped t w.tree) (hm : w.tree.MayLeave q n)
    (hclause : w.tree.kind q = .importClause → ∃ s, w.tree.parent q = some s ∧ w.tree.kind s = .importStatement) :
    (removeListMember n).OnlyReaps t w :=
  (ends_removeListMember_reapStep (h.remains ht).consistent hm hclause).mono
    (fun _ _ hstep => h.tail hstep) fun _ _ he => he.elim

theorem onlyReaps_removeDeclarator (ht : t.Consistent) (hd : t.DeclaratorsHeld) (h : Reaped t w.tree)
    (hroot : w.tree.Below w.tree.root b.path) (hk : w.tree.kind b.path = .variableDeclarator) :
    (removeDeclarator id b).OnlyReaps t w := by
  have hr := h.remains ht
  rw [OnlyReaps, removeDeclarator, ends_bind, ends_get]
  refine ends_ite (fun _ => h) fun _ => ?_
  split
  · exact h
  · rename_i d hp
    refine ends_ite (fun _ => onlyReaps_recorded h d d b.name .declaration) fun hmore => ?_
    · have hkd := hd.remains ht hr _ _ hroot hp hk
      have hother : ∃ c ∈ w.tree.children d, c ≠ b.path ∧ w.tree.kind c = .variableDeclarator := by
        by_contra hno
        refine hmore ((sole_iff hr.consistent hp hk).mpr fun c hc hkc => ?_)
        by_contra hne
        exact hno ⟨c, hc, hne, hkc⟩
      have hm : w.tree.MayLeave d b.path := ⟨hroot, hp, by rw [hk]; exact hkd, fun _ => hother⟩
      rw [ends_bind]
      refine Ends.imp (onlyReaps_removeListMember ht h hm fun hclause => ?_) fun _ _ hw' => hw'
      rw [hclause] at hkd
      cases hkd

theorem onlyReaps_removeImport (ht : t.Consistent) (h : Reaped t w.tree) (hm : w.tree.MayLeave q b.path)
    (hclause : w.tree.kind q = .importClause → ∃ s, w.tree.parent q = some s ∧ w.tree.kind s = .importStatement) :
    (removeImport b).OnlyReaps t w := by
  rw [OnlyReaps, removeImport, ends_bind]
  exact Ends.imp (onlyReaps_removeListMember ht h hm hclause) fun _ _ hw' => hw'

theorem onlyReaps_removeBinding (ht : t.Consistent) (hd : t.DeclaratorsHeld) (h : Reaped t w.tree)
    (hl : Listed id w β b) : (removeBinding id b).OnlyReaps t w := by
  have hc := (h.remains ht).consistent
  rw [OnlyReaps, removeBinding]
  refine ends_ite (fun _ => h) fun _ => ?_
  rw [ends_bind, ends_get]
  refine ends_ite (fun _ => h) fun hin => ?_
  have hroot : w.tree.Below w.tree.root b.path := (contains_iff_below hc).mp (by simpa using hin)
  have hplaced := hl.placed hroot
  rw [Binding.Placed] at hplaced
  cases hconstruct : b.construct with
  | declarator =>
    rw [hconstruct] at hplaced
    exact onlyReaps_removeDeclarator ht hd h hroot hplaced
  | function => exact onlyReaps_recorded h b.path b.path b.name .function
  | importSpecifier =>
    rw [hconstruct] at hplaced
    obtain ⟨hk, list, hp, hkl⟩ := hplaced
    have hm : w.tree.MayLeave list b.path := ⟨hroot, hp, by rw [hkl, hk]; rfl, by rw [hk]; rintro ⟨⟩⟩
    exact onlyReaps_removeImport ht h hm (by rw [hkl]; rintro ⟨⟩)
  | importDefault =>
    rw [hconstruct] at hplaced
    obtain ⟨hk, clause, s, hp, hkc, hps, hks⟩ := hplaced
    have hm : w.tree.MayLeave clause b.path := ⟨hroot, hp, by rw [hkc, hk]; rfl, by rw [hk]; rintro ⟨⟩⟩
    exact onlyReaps_removeImport ht h hm fun _ => ⟨s, hps, hks⟩
  | other => exact h

theorem onlyReaps_removeCandidate (h : Reaped t w.tree) (name : String) (n : NodeId) :
    (removeCandidate name n).OnlyReaps t w := by
  rw [OnlyReaps, removeCandidate, ends_bind, ends_get]
  dsimp only
  split
  · exact h
  · rename_i s _
    exact ends_ite (fun _ => h) fun _ => onlyReaps_recorded h s s name .assignment

end Job

/-! ## Passes and runs -/

theorem upheld_reaped (ht : t.Consistent) (hd : t.DeclaratorsHeld) :
    Upheld id (fun _ w => Reaped t w.tree) fun _ w => Reaped t w.tree where
  refresh {h w} _ hw := by
    rw [(refresh_frame w id).1]
    exact hw
  excise hw hl := (Job.onlyReaps_removeBinding ht hd hw hl).imp fun _ _ hw' _ => hw'
  sight hw _ _ := hw

namespace Job

theorem onlyReaps_runPassNoted (ht : t.Consistent) (hd : t.DeclaratorsHeld) (h : Reaped t w.tree) :
    runPassNoted.OnlyReaps t w := by
  rw [OnlyReaps, runPassNoted, ends_bind, ends_get, ends_bind]
  refine ends_withAnalysis ((ends_walkNoted_traced (h.remains ht).consistent (upheld_reaped ht hd) h).imp
    fun p u hu => ?_)
  rw [ends_bind]
  have hturns : (removeCandidatesNoted p.1.collector p.2).OnlyReaps t (u.leave (.analysis w.startAnalysis.1)) := by
    refine ends_foldlM (I := fun _ u => Reaped t u.tree) (fun e _ s v hv => ?_) hu.2.1
    rw [ends_bind, removeCandidateNoted, ends_bind, ends_get, ends_bind]
    exact Ends.imp (onlyReaps_removeCandidate hv e.1 e.2) fun _ _ hv' => hv'
  exact Ends.imp hturns fun _ _ hv => hv

theorem onlyReaps_runPassesNoted (ht : t.Consistent) (hd : t.DeclaratorsHeld) (fuel : Nat) (h : Reaped t w.tree) :
    (runPassesNoted fuel).OnlyReaps t w := by
  induction fuel generalizing w with
  | zero => exact h
  | succ fuel ih =>
    rw [OnlyReaps, runPassesNoted, ends_bind]
    refine Ends.imp (onlyReaps_runPassNoted ht hd h) fun r u hu => ends_ite (fun _ => hu) fun _ => ?_
    rw [ends_bind]
    exact Ends.imp (ih hu) fun _ _ hw' => hw'

/-- Whatever a run takes out, it takes out by whole removals. -/
theorem onlyReaps_run (e : Engine) (ht : w.tree.Consistent) (hd : w.tree.DeclaratorsHeld) :
    e.run.OnlyReaps w.tree w := by
  rw [OnlyReaps, ← e.run_of_noted, ends_map, Engine.runNoted, ends_bind, ends_modify, ends_bind, ends_get, ends_bind]
  exact Ends.imp (onlyReaps_runPassesNoted (w := { w with report := {} }) ht hd _ .refl) fun _ _ hw' => hw'

theorem onlyTrims_run (e : Engine) (ht : w.tree.Consistent) (hd : w.tree.Declared) : e.run.OnlyTrims w.tree w :=
  (onlyReaps_run e ht hd.held).mono (fun _ _ h => h.trimmed ht hd) fun _ _ h => h.trimmed ht hd

end Job

/-- Whether it returns or fails, a run keeps the skeleton of the tree. -/
theorem run_keeps_skeleton (e : Engine) (w w' : Workspace) (ht : w.tree.Consistent) (hd : w.tree.Declared)
    (hend : (∃ report, e.run w = .ok report w') ∨ ∃ err, e.run w = .error err w') : Skeleton w.tree w'.tree := by
  have hends := Job.onlyTrims_run e ht hd
  unfold Job.OnlyTrims Job.Ends at hends
  rcases hend with ⟨report, h⟩ | ⟨err, h⟩
  · rw [h] at hends
    exact Trimmed.skeleton hends ht
  · rw [h] at hends
    exact Trimmed.skeleton hends ht

/-- The program `import d from "m"; if (1) a = 3; let p = 1, q = 2; q;`. -/
def slottedProgram : Tree where
  nodes := #[
    { kind := .program, children := [1, 7, 16, 26] },
    { kind := .importStatement, children := [2, 3, 5, 6], parent := some 0 },
    { kind := .other "import", named := false, text := "import", parent := some 1 },
    { kind := .importClause, children := [4], parent := some 1 },
    { kind := .identifier, text := "d", parent := some 3 },
    { kind := .fromWord, named := false, text := "from", parent := some 1 },
    { kind := .other "string", field := some .source, text := "\"m\"", parent := some 1 },
    { kind := .ifStatement, children := [8, 9, 10], parent := some 0 },
    { kind := .other "if", named := false, text := "if", parent := some 7 },
    { kind := .number, field := some (.other "condition"), text := "1", parent := some 7 },
    { kind := .expressionStatement, field := some .consequence, children := [11, 15], parent := some 7 },
    { kind := .assignmentExpression, children := [12, 13, 14], parent := some 10 },
    { kind := .identifier, field := some .left, text := "a", parent := some 11 },
    { kind := .other "=", named := false, text := "=", parent := some 11 },
    { kind := .number, field := some .right, text := "3", parent := some 11 },
    { kind := .other ";", named := false, text := ";", parent := some 10 },
    { kind := .lexicalDeclaration, children := [17, 18, 21, 22, 25], parent := some 0 },
    { kind := .other "let", named := false, field := some .kind, text := "let", parent := some 16 },
    { kind := .variableDeclarator, children := [19, 20], parent := some 16 },
    { kind := .identifier, field := some .name, text := "p", parent := some 18 },
    { kind := .number, field := some .value, text := "1", parent := some 18 },
    { kind := .comma, named := false, text := ",", parent := some 16 },
    { kind := .variableDeclarator, children := [23, 24], parent := some 16 },
    { kind := .identifier, field := some .name, text := "q", parent := some 22 },
    { kind := .number, field := some .value, text := "2", parent := some 22 },
    { kind := .other ";", named := false, text := ";", parent := some 16 },
    { kind := .expressionStatement, children := [27, 28], parent := some 0 },
    { kind := .identifier, text := "q", parent := some 26 },
    { kind := .other ";", named := false, text := ";", parent := some 26 }]

/-- The import loses its clause, the branch is filled by an empty statement, and the declaration keeps `q`. -/
theorem run_keeps_skeleton_slottedProgram : ∃ report w',
    ({} : Engine).run { tree := slottedProgram } = .ok report w' ∧ Skeleton slottedProgram w'.tree ∧
      w'.tree.children 1 = [2, 6] ∧ w'.tree.children 7 = [8, 9, 29] ∧ w'.tree.kind 29 = .emptyStatement ∧
      w'.tree.children 16 = [17, 22, 25] := by
  have hout : answer? (({} : Engine).run { tree := slottedProgram }) (fun _ w' => (w'.tree.children 1,
      w'.tree.children 7, w'.tree.kind 29, w'.tree.children 16)) =
        some ([2, 6], [8, 9, 29], .emptyStatement, [17, 22, 25]) := by decide +kernel
  obtain ⟨report, w', hrun, hout⟩ := answer?_eq_some.mp hout
  simp only [Prod.mk.injEq] at hout
  have hplace : ∀ n < slottedProgram.size, slottedProgram.kind n = .variableDeclarator →
      slottedProgram.parent n = some 16 := by decide +kernel
  have hdeclared : slottedProgram.Declared := fun n p _ hp hk => by
    obtain rfl := Option.some.inj (hp.symm.trans (hplace n (lt_size_of_parent hp) hk))
    exact .inl rfl
  exact ⟨report, w', hrun,
    run_keeps_skeleton {} { tree := slottedProgram } w' (by decide +kernel) hdeclared (.inl ⟨report, hrun⟩), hout⟩

end DeadCode
