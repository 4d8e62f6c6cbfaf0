import DeadCode.Proofs.Engine.Dangling
import DeadCode.Proofs.Engine.Guarantees
import DeadCode.Proofs.Names.Balance

/-!
Runs on a program return. No edit of a run finds its node out of place, and no follower misses anything when it is
told of a subtree (`run_returns`). Of the grammar only this is needed: the root is a program, and no declarator stands
directly in it.
-/

namespace DeadCode

open DeadCode.Tree Workspace

/-! ## Followers that look before they take -/

namespace Workspace

/-- As `tell`, with a subtraction that looks before it takes. -/
def tell? (removed : NodeId) (w : Workspace) : Follower → Option Workspace
  | .recorder => some (tell removed w .recorder)
  | .analysis id => ((w.analysis id).subtract? w.tree removed).map (w.setAnalysis id)

def settle? (w : Workspace) (t : Tree) (removed : NodeId) : Option Workspace :=
  w.followers.foldlM (tell? removed) { w with tree := t }

/-- Trees are taken over one after the other, and no follower misses anything that it is to take out. -/
inductive Settles (w : Workspace) : Workspace → Prop
  | refl : Settles w w
  | settle {u v : Workspace} {t : Tree} {n : NodeId} : Settles w u → u.settle? t n = some v → Settles w v
  | report {u : Workspace} (r : Report) : Settles w u → Settles w { u with report := r }

def Balanced (w : Workspace) : Prop := ∀ id, (w.analysis id).Balanced

variable {w w' : Workspace} {n : NodeId}

theorem Balanced.setAnalysis (h : w.Balanced) {a : Analysis} (ha : a.Balanced) (id : AnalysisId) :
    (w.setAnalysis id a).Balanced := fun i => by
  rw [analysis_setAnalysis]
  split
  · exact ha
  · exact h i

theorem Balanced.tell?_eq_some (h : w.Balanced) (n : NodeId) (f : Follower) :
    tell? n w f = some (tell n w f) ∧ (tell n w f).Balanced := by
  cases f with
  | recorder => exact ⟨rfl, h⟩
  | analysis id =>
    rw [tell?, (h id).subtract?_eq_some]
    exact ⟨rfl, h.setAnalysis ((h id).subtract w.tree n) id⟩

theorem Balanced.settle?_eq_some (h : w.Balanced) (t : Tree) (n : NodeId) :
    w.settle? t n = some (w.settle t n) ∧ (w.settle t n).Balanced := by
  have hall : ∀ (fs : List Follower) {w : Workspace}, w.Balanced →
      fs.foldlM (tell? n) w = some (fs.foldl (tell n) w) ∧ (fs.foldl (tell n) w).Balanced := by
    intro fs
    induction fs with
    | nil => exact fun h => ⟨rfl, h⟩
    | cons f fs ih =>
      intro w h
      obtain ⟨htell, hb⟩ := h.tell?_eq_some n f
      rw [List.foldlM_cons, htell]
      exact ih hb
  exact hall w.followers (w := { w with tree := t }) h

theorem Balanced.refresh (h : w.Balanced) (ht : w.tree.Consistent) (id : AnalysisId) : (w.refresh id).Balanced := by
  unfold Workspace.refresh
  dsimp only
  split
  · exact h.setAnalysis (balanced_crawl ht _) id
  · exact h

theorem Balanced.startAnalysis (h : w.Balanced) : w.startAnalysis.2.Balanced := fun id => by
  change ((w.analyses.push {}).getD id default).Balanced
  rw [Analysis.getD_push]
  split
  · exact balanced_empty
  · exact h id

end Workspace

variable {id : AnalysisId} {w w' : Workspace} {n q : NodeId} {β : BindingId} {b : Binding}

/-- Edits of a workspace whose analyses are balanced find all that is to be taken out. -/
theorem Edits.settles (h : Edits w w') (hb : w.Balanced) : w.Settles w' ∧ w'.Balanced := by
  induction h with
  | refl => exact ⟨.refl, hb⟩
  | report r _ ih => exact ⟨.report r ih.1, ih.2⟩
  | @settle u t q n gone _ _ _ ih =>
    obtain ⟨hsettle, hb'⟩ := ih.2.settle?_eq_some t n
    exact ⟨.settle ih.1 hsettle, hb'⟩

/-! ## Edits that find their node in place -/

/-- The root is a program, and no declarator stands directly in it. -/
structure Tree.Rooted (t : Tree) : Prop where
  program : t.kind t.root = .program
  declarator : ∀ c ∈ t.children t.root, t.kind c ≠ .variableDeclarator

theorem Tree.Rooted.remains {t t' : Tree} (h : t.Rooted) (ht : t.Consistent) (hr : Remains t t') : t'.Rooted where
  program := by rw [hr.root, hr.kind_eq _ ht.root_lt, h.program]
  declarator c hc hk := by
    have hp := (hr.consistent.mem_children _ c).mp hc
    rcases lt_or_ge c t.size with hlt | hge
    · rw [hr.parent_eq c hlt (.of_parent hp), hr.root] at hp
      exact h.declarator c ((ht.mem_children _ c).mpr hp) ((hr.kind_eq c hlt).symm.trans hk)
    · rw [hr.fresh_kind c hge (lt_size_of_parent hp)] at hk
      cases hk

namespace Job

/-- A member of anything but the root can be removed. -/
theorem ends_removeListMember_inner (ht : w.tree.Consistent) (hroot : w.tree.Below w.tree.root n)
    (hp : w.tree.parent n = some q) (hq : q ≠ w.tree.root) :
    (removeListMember n).Ends w (fun _ _ => True) Never := by
  by_cases hk : w.tree.kind q = .importClause
  · have hqroot := hroot.of_child ht hp
    obtain ⟨s, hs, _⟩ := hqroot.parent hq
    exact (ends_removeListMember_clause ht hqroot hk hp hs).imp fun _ _ _ => trivial
  · exact (ends_removeListMember ht hp hk).imp fun _ _ _ => trivial

theorem ends_removeStatement_inner (ht : w.tree.Consistent) (hroot : w.tree.Below w.tree.root n)
    (hn : n ≠ w.tree.root) : (removeStatement n).Ends w (fun _ _ => True) Never := by
  obtain ⟨q, hq, _⟩ := hroot.parent hn
  exact (ends_removeStatement ht hq).imp fun _ _ _ => trivial

theorem ends_removeDeclarator_returns (ht : w.tree.Consistent) (hr : w.tree.Rooted)
    (hroot : w.tree.Below w.tree.root b.path) (hk : w.tree.kind b.path = .variableDeclarator) :
    (removeDeclarator id b).Ends w (fun _ _ => True) Never := by
  rw [removeDeclarator, ends_bind, ends_get]
  refine ends_ite (fun _ => trivial) fun _ => ?_
  split
  · exact trivial
  · rename_i d hp
    have hd : d ≠ w.tree.root := by
      rintro rfl
      exact hr.declarator _ ((ht.mem_children _ _).mpr hp) hk
    refine ends_ite (fun _ => ?_) fun _ => ?_
    · rw [ends_bind]
      refine (ends_removeStatement_inner ht (hroot.of_child ht hp) hd).imp fun done _ _ => ?_
      cases done <;> exact trivial
    · rw [ends_bind]
      exact (ends_removeListMember_inner ht hroot hp hd).imp fun _ _ _ => trivial

/-- The removal of a binding does not fail. -/
theorem ends_removeBinding_returns (h : Listed id w β b) (hr : w.tree.Rooted) :
    (removeBinding id b).Ends w (fun _ _ => True) Never := by
  have ht := h.tracks.consistent
  rw [removeBinding]
  refine ends_ite (fun _ => trivial) fun _ => ?_
  rw [ends_bind, ends_get]
  refine ends_ite (fun _ => trivial) fun hin => ?_
  have hroot : w.tree.Below w.tree.root b.path := (contains_iff_below ht).mp (by simpa using hin)
  have hplaced := h.placed hroot
  rw [Binding.Placed] at hplaced
  -- nothing that introduces a name is a program
  have hinner : w.tree.kind b.path ≠ .program → b.path ≠ w.tree.root := fun hne he => hne (he ▸ hr.program)
  cases hc : b.construct with
  | declarator =>
    rw [hc] at hplaced
    exact ends_removeDeclarator_returns ht hr hroot hplaced
  | function =>
    rw [hc] at hplaced
    have hne : b.path ≠ w.tree.root := hinner <| by
      rcases hplaced with hk | hk <;> rw [hk] <;> decide
    change (removeFunction b).Ends w _ _
    rw [removeFunction, ends_bind]
    refine (ends_removeStatement_inner ht hroot hne).imp fun done _ _ => ?_
    cases done <;> exact trivial
  | importSpecifier =>
    rw [hc] at hplaced
    obtain ⟨_, list, hlist, hkl⟩ := hplaced
    have hne : list ≠ w.tree.root := fun he => by
      rw [he, hr.program] at hkl
      cases hkl
    change (removeImport b).Ends w _ _
    rw [removeImport, ends_bind]
    exact (ends_removeListMember_inner ht hroot hlist hne).imp fun _ _ _ => trivial
  | importDefault =>
    rw [hc] at hplaced
    obtain ⟨_, clause, _, hclause, hkc, _⟩ := hplaced
    have hne : clause ≠ w.tree.root := fun he => by
      rw [he, hr.program] at hkc
      cases hkc
    change (removeImport b).Ends w _ _
    rw [removeImport, ends_bind]
    exact (ends_removeListMember_inner ht hroot hclause hne).imp fun _ _ _ => trivial
  | other => exact trivial

end Job

/-! ## Passes and runs -/

/-- Whatever the excisions and turns took out was found. -/
def History.Settles (h : History) : Prop :=
  (∀ x ∈ h.excisions, x.before.Settles x.after) ∧ ∀ u ∈ h.turns, u.before.Settles u.after

/-- What holds throughout a walk: the tree is still rooted, and the analyses are balanced. -/
structure Sound (h : History) (w : Workspace) : Prop where
  rooted : w.tree.Rooted
  balanced : w.Balanced
  settles : ∀ x ∈ h.excisions, x.before.Settles x.after

theorem Sound.upheld : Upheld id Sound Job.Never where
  refresh {h w} ht hs := by
    refine ⟨?_, hs.balanced.refresh ht.consistent id, hs.settles⟩
    rw [(refresh_frame w id).1]
    exact hs.rooted
  excise {h w β b} hs hl := by
    refine ((Job.ends_removeBinding_returns hl hs.rooted).and (Job.ends_removeBinding_any hl)).mono
      (fun done w' hdone hd => ?_) fun _ _ he => he.1
    have hx := hdone.2.1 hd
    obtain ⟨hsettles, hb⟩ := hx.edits.settles hs.balanced
    refine ⟨hs.rooted.remains hl.tracks.consistent (hx.edits.remains hl.tracks.consistent), hb, fun x hmem => ?_⟩
    rcases List.mem_append.mp hmem with hmem | hmem
    · exact hs.settles x hmem
    · obtain rfl := List.mem_singleton.mp hmem
      exact hsettles
  sight hs _ _ := ⟨hs.rooted, hs.balanced, hs.settles⟩

theorem Turns.settles {us : List Turn} (h : Turns w us w') (hb : w.Balanced) :
    (∀ u ∈ us, u.before.Settles u.after) ∧ w'.Balanced := by
  induction h with
  | nil => exact ⟨fun u hu => absurd hu List.not_mem_nil, hb⟩
  | @cons u us w' _ hturn _ ih =>
    obtain ⟨hsettles, hb'⟩ := hturn.edits.settles hb
    obtain ⟨hall, hb''⟩ := ih hb'
    refine ⟨fun v hv => ?_, hb''⟩
    rcases List.mem_cons.mp hv with rfl | hv
    · exact hsettles
    · exact hall v hv

namespace Job

/-- The turn of a candidate fails only if its statement is the root, which is none. -/
theorem ends_removeCandidate_returns {t₀ : Tree} {r₀ : Report} {p : Pass × History}
    (htraced : Traced t₀ r₀ id p w) (hr : w.tree.Rooted) {e : String × NodeId}
    (he : e ∈ p.1.collector.candidates.entries) (hedits : Edits (w.leave (.analysis id)) w') :
    (removeCandidate e.1 e.2).Ends w' (fun _ _ => True) Never := by
  have ht := htraced.tracks.consistent
  have hremains : Remains w.tree w'.tree := hedits.remains ht
  refine (ends_removeCandidate hremains.consistent e.1 e.2).mono (fun _ _ _ => trivial) fun _ _ hroot => ?_
  obtain ⟨⟨_, s, _, hs, hn, ha, _⟩, _⟩ := (htraced.collected.candidate e.1 e.2).mp
    (Table.get?_of_mem htraced.collected.distinct he)
  obtain ⟨q, hq, hk⟩ := ha.1.statement
  have hprec := (htraced.sighted s (by rw [hs]; simp)).edits (w := w.leave (.analysis id)) hedits
  have hkept := hprec.remains
  rw [hn] at hq
  rw [hkept.parent_eq e.2 (lt_size_of_parent hq) (.of_parent hroot)] at hroot
  obtain rfl := Option.some.inj (hq.symm.trans hroot)
  have hprogram := (hr.remains ht hremains).program
  rw [hkept.kind_eq _ (hkept.root ▸ hprec.consistent.root_lt), hk] at hprogram
  cases hprogram

theorem ends_runPassNoted_returns (ht : w.tree.Consistent) (hr : w.tree.Rooted) (hb : w.Balanced) :
    runPassNoted.Ends w (fun r w' => w'.tree.Consistent ∧ w'.tree.Rooted ∧ w'.Balanced ∧ r.2.Settles) Never := by
  have hstart : Sound {} w.startAnalysis.2 := ⟨hr, hb.startAnalysis, fun x hx => absurd hx List.not_mem_nil⟩
  refine (ends_runPassNoted_passage (P := False) ht Sound.upheld hstart
    fun p u htraced hs _ e he w' hedits => ends_removeCandidate_returns htraced hs.rooted he hedits).imp
      fun r w' hpass => ?_
  obtain ⟨p, u, v, hp, hs, _, rfl, _⟩ := hpass
  obtain ⟨hturns, hbv⟩ := hp.turns.settles (w := u.leave (.analysis w.startAnalysis.1)) hs.balanced
  refine ⟨hp.remains.consistent, hr.remains ht hp.remains, hbv, fun x hx => ?_, hturns⟩
  rw [hp.history] at hx
  exact hs.settles x hx

theorem ends_runPassesNoted_returns (fuel : Nat) (ht : w.tree.Consistent) (hr : w.tree.Rooted) (hb : w.Balanced) :
    (runPassesNoted fuel).Ends w (fun hs _ => ∀ h ∈ hs, h.Settles) Never := by
  induction fuel generalizing w with
  | zero => exact fun h hh => absurd hh List.not_mem_nil
  | succ fuel ih =>
    rw [runPassesNoted, ends_bind]
    refine (ends_runPassNoted_returns ht hr hb).imp fun r u hu => ends_ite (fun _ h hh => ?_) fun _ => ?_
    · rw [List.mem_singleton.mp hh]
      exact hu.2.2.2
    · rw [ends_bind]
      refine (ih hu.1 hu.2.1 hu.2.2.1).imp fun hs _ hall h hh => ?_
      rcases List.mem_cons.mp hh with rfl | hh
      · exact hu.2.2.2
      · exact hall h hh

end Job

/-- Every run on a program returns: no node that is to be taken out is missing from its parent, and no analysis misses
a reference or a scope that it is to take out of a list. -/
theorem run_returns (e : Engine) (t : Tree) (ht : t.Consistent) (hprogram : t.kind t.root = .program)
    (hplaced : ∀ c ∈ t.children t.root, t.kind c ≠ .variableDeclarator) : ∃ report hs w',
      e.run { tree := t } = .ok report w' ∧ e.runNoted { tree := t } = .ok (report, hs) w' ∧
        ∀ h ∈ hs, (∀ x ∈ h.excisions, x.before.Settles x.after) ∧ ∀ u ∈ h.turns, u.before.Settles u.after := by
  have hends : e.runNoted.Ends { tree := t } (fun r _ => ∀ h ∈ r.2, h.Settles) Job.Never := by
    rw [Engine.runNoted, Job.ends_bind, Job.ends_modify, Job.ends_bind, Job.ends_get, Job.ends_bind]
    exact Job.ends_runPassesNoted_returns (w := { tree := t }) _ ht ⟨hprogram, hplaced⟩ fun _ => balanced_empty
  obtain ⟨⟨report, hs⟩, w', hok, hall⟩ := hends.returns
  exact ⟨report, hs, w', Engine.run_eq_ok_iff.mpr ⟨hs, hok⟩, hok, hall⟩

/-- The class that leaves with `c` holds scopes and a redeclaration of `x`, all of which is found. -/
theorem run_returns_hoistingProgram : ∃ report h w' c y x,
    ({} : Engine).run { tree := hoistingProgram } = .ok report w' ∧
      ({} : Engine).runNoted { tree := hoistingProgram } = .ok (report, [h]) w' ∧ h.excisions = [c, y, x] ∧
      c.before.Settles c.after ∧ y.before.Settles y.after ∧ x.before.Settles x.after := by
  obtain ⟨report, hs, w', hrun, hnoted, hall⟩ :=
    run_returns {} hoistingProgram (by decide +kernel) rfl (by decide +kernel)
  have hout : answer? (({} : Engine).runNoted { tree := hoistingProgram }) (fun r _ =>
      r.2.map fun h => h.excisions.map fun x => x.binding.name) = some [["c", "y", "x"]] := by decide +kernel
  rw [hnoted] at hout
  obtain ⟨h, rfl, hh⟩ := List.map_eq_singleton_iff.mp (Option.some.inj hout)
  obtain ⟨c, rest, hx, _, hrest⟩ := List.map_eq_cons_iff.mp hh
  obtain ⟨y, rest, rfl, _, hrest⟩ := List.map_eq_cons_iff.mp hrest
  obtain ⟨x, rfl, _⟩ := List.map_eq_singleton_iff.mp hrest
  have hsettles := (hall h (List.mem_singleton_self h)).1
  rw [hx] at hsettles
  exact ⟨report, h, w', c, y, x, hrun, hnoted, hx, hsettles c (by simp), hsettles y (by simp), hsettles x (by simp)⟩

end DeadCode
