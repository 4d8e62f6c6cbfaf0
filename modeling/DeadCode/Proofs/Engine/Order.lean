import DeadCode.Proofs.Engine.LegalSteps

/-!
Runs and legal steps. Whatever a run removes is removed by legal steps, though it decides by tables that it keeps up
to date (`Simulated`).
-/

namespace DeadCode

open DeadCode.Tree Workspace

namespace Job

variable {α β : Type} {j k : Job α} {f g : α → Job β} {w v : Workspace}

/-- Whatever the job returns on `w`, the other does on `v`, and leaves the same tree. -/
def Matches (j k : Job α) (w v : Workspace) : Prop :=
  ∀ x w', j w = .ok x w' → ∃ v', k v = .ok x v' ∧ v'.tree = w'.tree

theorem matches_pure (x : α) (ht : v.tree = w.tree) : Matches (pure x) (pure x) w v := fun _ _ h => by
  cases h
  exact ⟨v, rfl, ht⟩

theorem matches_throw (e : SurgeryError) : Matches (throw e : Job α) k w v := fun _ _ h => by cases h

theorem matches_get {f g : Workspace → Job β} (h : Matches (f w) (g v) w v) :
    Matches (get >>= f) (get >>= g) w v := h

theorem matches_modify {f g : Workspace → Workspace} (h : (g v).tree = (f w).tree) :
    Matches (modify f) (modify g) w v := fun _ _ hrun => by
  cases hrun
  exact ⟨g v, rfl, h⟩

theorem matches_bind (hj : Matches j k w v)
    (hf : ∀ x w' v', v'.tree = w'.tree → Matches (f x) (g x) w' v') : Matches (j >>= f) (k >>= g) w v := by
  intro y w'' h
  change EStateM.bind j f w = _ at h
  rw [EStateM.bind] at h
  cases hrun : j w with
  | error e u => rw [hrun] at h; cases h
  | ok x u =>
    rw [hrun] at h
    obtain ⟨v', hk, ht⟩ := hj x u hrun
    obtain ⟨v'', hg, ht'⟩ := hf x u v' ht y w'' h
    refine ⟨v'', ?_, ht'⟩
    change EStateM.bind k g v = _
    rw [EStateM.bind, hk]
    exact hg

theorem matches_ite {c : Prop} [Decidable c] {j j' k k' : Job α} (hj : Matches j k w v) (hk : Matches j' k' w v) :
    Matches (if c then j else j') (if c then k else k') w v := by
  split
  · exact hj
  · exact hk

/-! ## Jobs that read the tree only -/

theorem matches_detach (ht : v.tree = w.tree) (n : NodeId) : Matches (detach n) (detach n) w v := by
  refine matches_get ?_
  rw [ht]
  cases w.tree.detach n with
  | error e => exact matches_throw e
  | ok t => exact matches_bind (matches_modify (by rw [tree_settle, tree_settle])) fun _ _ _ => matches_pure n

theorem matches_removeStatement (ht : v.tree = w.tree) (n : NodeId) :
    Matches (removeStatement n) (removeStatement n) w v := by
  refine matches_get ?_
  rw [ht]
  rcases w.tree.removeStatement n with e | _ | t
  · exact matches_throw e
  · exact matches_pure false ht
  · exact matches_bind (matches_modify (by rw [tree_settle, tree_settle])) fun _ _ _ => matches_pure true

theorem matches_removeListMember (ht : v.tree = w.tree) (n : NodeId) :
    Matches (removeListMember n) (removeListMember n) w v := by
  refine matches_get ?_
  rw [ht]
  refine matches_bind (matches_detach ht n) fun _ w₁ v₁ ht₁ => ?_
  cases w.tree.parent n with
  | none => exact matches_pure n ht₁
  | some c =>
    refine matches_get ?_
    rw [ht₁]
    refine matches_ite ?_ (matches_pure n ht₁)
    refine matches_bind (matches_detach ht₁ c) fun _ w₂ v₂ ht₂ => ?_
    cases w₁.tree.parent c with
    | none => exact matches_pure n ht₂
    | some s =>
      refine matches_get ?_
      rw [ht₂]
      dsimp only
      cases (w₂.tree.children s).find? fun k => w₂.tree.kind k = .fromWord with
      | none => exact matches_pure n ht₂
      | some word => exact matches_bind (matches_detach ht₂ word) fun _ _ _ => matches_pure n

theorem matches_removeFunction (ht : v.tree = w.tree) {b c : Binding} (hpath : c.path = b.path) :
    Matches (removeFunction b) (removeFunction c) w v := by
  rw [removeFunction, removeFunction, hpath]
  refine matches_bind (matches_removeStatement ht _) fun done w₁ v₁ ht₁ => ?_
  exact matches_ite (matches_bind (matches_modify ht₁) fun _ _ _ => matches_pure true) (matches_pure false ht₁)

theorem matches_removeImport (ht : v.tree = w.tree) {b c : Binding} (hpath : c.path = b.path) :
    Matches (removeImport b) (removeImport c) w v := by
  rw [removeImport, removeImport, hpath]
  exact matches_bind (matches_removeListMember ht _) fun _ _ _ ht₁ =>
    matches_bind (matches_modify ht₁) fun _ _ _ => matches_pure true

/-- The tables of the analyses count only as far as they hold a declarator back. -/
theorem matches_removeDeclarator (ht : v.tree = w.tree) {b c : Binding} (hpath : c.path = b.path)
    {id id' : AnalysisId} (hb : ¬ (w.analysis id).Holds b) (hc : ¬ (v.analysis id').Holds c) :
    Matches (removeDeclarator id b) (removeDeclarator id' c) w v := by
  refine matches_get ?_
  rw [← holds_iff] at hb hc
  dsimp only
  rw [if_neg hb, if_neg hc, ht, hpath]
  cases w.tree.parent b.path with
  | none => exact matches_pure false ht
  | some D =>
    refine matches_ite ?_ ?_
    · refine matches_bind (matches_removeStatement ht D) fun done w₁ v₁ ht₁ => ?_
      exact matches_ite (matches_bind (matches_modify ht₁) fun _ _ _ => matches_pure true) (matches_pure false ht₁)
    · exact matches_bind (matches_removeListMember ht _) fun _ _ _ ht₁ =>
        matches_bind (matches_modify ht₁) fun _ _ _ => matches_pure true

theorem matches_removeBinding (ht : v.tree = w.tree) {b c : Binding} (hpath : c.path = b.path)
    (hconstruct : c.construct = b.construct) {id id' : AnalysisId}
    (hb : b.construct = .declarator → ¬ (w.analysis id).Holds b)
    (hc : b.construct = .declarator → ¬ (v.analysis id').Holds c) :
    Matches (removeBinding id b) (removeBinding id' c) w v := by
  rw [removeBinding, removeBinding, hconstruct, hpath]
  refine matches_ite (matches_pure false ht) (matches_get ?_)
  rw [ht]
  refine matches_ite (matches_pure false ht) ?_
  cases hk : b.construct with
  | declarator => exact matches_removeDeclarator ht hpath (hb hk) (hc hk)
  | function => exact matches_removeFunction ht hpath
  | importSpecifier | importDefault => exact matches_removeImport ht hpath
  | other => exact matches_pure false ht

theorem matches_removeCandidate (ht : v.tree = w.tree) (name : String) (n : NodeId) :
    Matches (removeCandidate name n) (removeCandidate name n) w v := by
  refine matches_get ?_
  rw [ht]
  dsimp only
  cases w.tree.parent n with
  | none => exact matches_pure false ht
  | some s =>
    refine matches_ite (matches_pure false ht) ?_
    refine matches_bind (matches_removeStatement ht s) fun done w₁ v₁ ht₁ => ?_
    exact matches_ite (matches_bind (matches_modify ht₁) fun _ _ _ => matches_pure true) (matches_pure false ht₁)

end Job

variable {t₀ : Tree} {id : AnalysisId} {w w' : Workspace} {h : History} {hs : List History} {β : BindingId}
  {b : Binding} {n : NodeId} {name : String}

/-! ## What the engine removes -/

/-- A removal that an analysis up to date decides on is legal. -/
theorem Listed.legalStep (hl : Listed id w β b) (ht : Tracked True id w) (hu : UpToDate True id w)
    (hrun : Job.removeBinding id b w = .ok true w') : LegalStep w.tree w'.tree := by
  have hroot := (((Job.ends_removeBinding_any hl).of_ok hrun).1 rfl).attached
  have hguard := (Job.ends_removeBinding_spares id b).of_ok hrun rfl
  obtain ⟨d, hdead, hpath, hc⟩ := (hl.doomed ht).dead hu hroot hguard
  obtain ⟨γ, hγ, hrefs, hpath', hc', hfree⟩ := hdead.listed ht.tree
  have hfree : b.construct = .declarator →
      ¬ ((surveyed w.tree).analysis 0).Holds (w.tree.crawled.binding γ) := fun hk => by
    rw [analysis_surveyed]
    exact hfree (hc.trans hk)
  have hmatches := Job.matches_removeBinding (w := w) (v := .surveyed w.tree) rfl (hpath'.trans hpath) (hc'.trans hc)
    hguard hfree
  obtain ⟨v, hrun', htree⟩ := hmatches true w' hrun
  rw [← htree]
  exact .excise hγ hrefs hrun'

theorem legalStep_of_turn (hn : w.tree.contains n = true) (hd : w.tree.DanglesAt n name) (hs : ¬ w.tree.Spells name)
    (hrun : Job.removeCandidate name n w = .ok true w') : LegalStep w.tree w'.tree := by
  obtain ⟨v, hrun', htree⟩ := Job.matches_removeCandidate (w := w) (v := .surveyed w.tree) rfl name n true w' hrun
  exact htree ▸ .assign hn hd hs hrun'

/-- The walk that began with `t₀` came by legal steps to where it is. Assignments that it saw dangling still do, as
far as they are left. -/
structure Simulated (t₀ : Tree) (id : AnalysisId) (h : History) (w : Workspace) : Prop where
  walked : Walked True t₀ id h w
  steps : Relation.ReflTransGen LegalStep t₀ w.tree
  dangling : ∀ s ∈ h.sightings, ∀ x, s.Assigns x → w.tree.Below w.tree.root s.node → w.tree.DanglesAt s.node x

theorem Simulated.start (hw : WellShaped True w.tree) :
    Simulated w.tree w.startAnalysis.1 {} w.startAnalysis.2 :=
  ⟨.start hw, .refl, fun _ hs => absurd hs List.not_mem_nil⟩

/-- An assignment that the walk sees dangling dangles. -/
theorem Simulated.danglesAt (hj : Simulated t₀ id h w) (hl : t₀.Local) (hn : w.tree.Below w.tree.root n)
    (hv : (w.analysis id).version ≠ none) (ha : Sighting.Assigns ⟨n, w.tree, w.analysis id⟩ name) :
    w.tree.DanglesAt n name := by
  have ht := hj.walked.tracked.tree.consistent
  obtain ⟨refs, hr, _⟩ := ((hj.walked.current (.inl hl)).1.resolve_left hv).covered
  obtain ⟨hassigns, hbound⟩ := ha
  change (w.analysis id).bound ((w.analysis id).enclosing w.tree n) name = false at hbound
  rw [bound_eq ht hr hn] at hbound
  refine ⟨hassigns, ?_⟩
  rw [crawled, bound_eq ht (reflects_crawl ht {}) hn]
  exact hbound

section Runs

variable (hw : WellShaped True t₀) (hl : t₀.Local) (ho : t₀.Orderly)

include hw ho

theorem Simulated.upheld {t : Tree} (hr : Reached t₀ t) : Upheld id (Simulated t id) Job.Never where
  refresh {h w} _ hj := by
    have htree := (refresh_frame w id).1
    exact ⟨hj.walked.refresh, htree ▸ hj.steps, htree ▸ hj.dangling⟩
  excise {h w β b} hj hl := by
    refine ((Walked.upheld.excise hj.walked hl).and (Job.ends_self _)).mono (fun done w' hdone htrue => ?_)
      fun _ _ he => he.1
    obtain ⟨hwalked, hrun⟩ := hdone
    rw [htrue] at hrun
    have hlocal := hr.residue.inner
    have hstep := hl.legalStep hj.walked.tracked (hj.walked.current (.inl hlocal)).1 hrun
    have hrw := hr.steps hw ho hj.steps
    obtain ⟨_, _, hloses, _⟩ := hrw.of_step hw ho hstep
    refine ⟨hwalked htrue, hj.steps.tail hstep, fun s hs x ha hroot => ?_⟩
    have hlt := (hj.walked.assigned s hs x ha).1
    exact hloses.residue.dangles hj.walked.tracked.tree hrw.residue.inner
      (hj.dangling s hs x ha (hloses.residue.remains.attached _ hlt hroot)) hroot hlt
  sight {h w n} hj hn hv := by
    refine ⟨hj.walked.sight n hn, hj.steps, fun s hs x ha hroot => ?_⟩
    rcases List.mem_append.mp hs with hs | hs
    · exact hj.dangling s hs x ha hroot
    · obtain rfl := List.mem_singleton.mp hs
      exact hj.danglesAt hr.residue.inner hroot (hv ha.1.kind) ha

/-- Candidates that dangle and are spelled nowhere else leave by legal steps. -/
theorem Turns.steps {us : List Turn} (h : Turns w us w') (hr : Reached t₀ w.tree)
    (hus : ∀ u ∈ us, u.assignment < w.tree.size ∧ ¬ w.tree.Spells u.name ∧
      (w.tree.Below w.tree.root u.assignment → w.tree.DanglesAt u.assignment u.name)) :
    Relation.ReflTransGen LegalStep w.tree w'.tree := by
  induction h with
  | nil => exact .refl
  | @cons u us w' hrun hturn _ ih =>
    rcases hturn with ⟨hdone, s, _, _, hs, hroot, _⟩ | ⟨_, hafter, _⟩
    · obtain ⟨_, hspells, hdangles⟩ := hus u List.mem_cons_self
      have hn : u.before.tree.Below u.before.tree.root u.assignment := .step hs hroot
      have hstep : LegalStep u.before.tree u.after.tree := by
        rw [hdone] at hrun
        exact legalStep_of_turn ((contains_iff_below hr.residue.shaped.consistent).mpr hn) (hdangles hn) hspells hrun
      obtain ⟨_, _, hloses, hr'⟩ := hr.of_step hw ho hstep
      have hres := hloses.residue
      refine .head hstep (ih hr' fun t ht => ?_)
      obtain ⟨hlt, hspells, hdangles⟩ := hus t (List.mem_cons_of_mem u ht)
      refine ⟨lt_of_lt_of_le hlt hres.remains.size_le,
        fun hs => hspells (hres.spells hr.residue.shaped hr.residue.inner hs), fun hroot => ?_⟩
      exact hres.dangles hr.residue.shaped hr.residue.inner (hdangles (hres.remains.attached _ hlt hroot)) hroot hlt
    · rw [hafter] at ih
      exact ih hr fun t ht => hus t (List.mem_cons_of_mem u ht)

theorem Job.ends_runPassNoted_steps (hr : Reached t₀ w.tree) : runPassNoted.Ends w
    (fun _ w' => Relation.ReflTransGen LegalStep w.tree w'.tree) Whatever := by
  have hshaped := hr.residue.shaped
  refine (ends_runPassNoted_passage (P := True) hshaped.consistent (Simulated.upheld hw ho hr).whatever
    (.start hshaped) fun _ _ _ _ _ _ _ _ _ => ends_whatever _).imp fun r w' hpass => ?_
  obtain ⟨p, u, v, hp, hj, _, rfl, _⟩ := hpass
  have hru := hr.steps hw ho hj.steps
  have hread : ∀ t ∈ r.2.turns, t.assignment < u.tree.size ∧ ¬ u.tree.Spells t.name ∧
      (u.tree.Below u.tree.root t.assignment → u.tree.DanglesAt t.assignment t.name) := fun t ht => by
    obtain ⟨⟨_, s, _, hs, hn, ha, _⟩, hread⟩ := (hp.candidate_iff t.name t.assignment).mp ⟨t, ht, rfl, rfl⟩
    have hmem : s ∈ p.2.sightings := hp.sightings ▸ hs ▸ List.mem_append_right _ List.mem_cons_self
    refine ⟨hn ▸ (hj.walked.assigned s hmem t.name ha).1, ?_, hn ▸ hj.dangling s hmem t.name ha⟩
    rintro ⟨m, hm, hk, htext, htarget⟩
    have hroot := (contains_iff_below hru.residue.shaped.consistent).mp hm
    have hleft := hp.only_targets_left (.refl hru.residue.shaped.consistent) hread hroot hk htext
    exact absurd (hleft.symm.trans htarget) (by decide)
  have hturns : Relation.ReflTransGen LegalStep u.tree v.tree := Turns.steps hw ho
    (w := u.leave (.analysis w.startAnalysis.1)) hp.turns hru hread
  exact hj.steps.trans hturns

theorem Passes.steps (hp : Passes w hs w') (hr : Reached t₀ w.tree) :
    Relation.ReflTransGen LegalStep w.tree w'.tree := by
  induction hp with
  | nil => exact .refl
  | cons hrun _ ih =>
    have hsteps := (Job.ends_runPassNoted_steps hw ho hr).of_ok hrun
    exact hsteps.trans (ih (hr.steps hw ho hsteps))

end Runs

/-! ## The order is immaterial -/

/-- Nothing was removed in the pass. -/
structure History.Idle (h : History) : Prop where
  excisions : h.excisions = []
  turns : ∀ t ∈ h.turns, t.removed = false

/-- Passes that end with an idle one leave a stable tree. -/
theorem Passes.stable (hp : Passes w hs w') (ht : w.tree.Consistent) (hlast : hs.getLast? = some h) (hidle : h.Idle) :
    w'.tree.Stable := by
  induction hp with
  | nil => cases hlast
  | @cons w u w' k h₁ hs hrun hrest ih =>
    obtain ⟨p, x, v, hpass, _, rfl, _⟩ := (Job.ends_runPassNoted_any ht).of_ok hrun
    cases hs with
    | nil =>
      cases hrest
      obtain rfl := Option.some.inj hlast
      obtain ⟨htree, hstable⟩ := hpass.stable hidle.excisions hidle.turns
      exact htree.symm ▸ hstable
    | cons h₂ hs =>
      rw [List.getLast?_cons_cons] at hlast
      exact ih hpass.remains.consistent hlast

/-- What a run removes, legal steps do. If its last pass removed nothing, then no step is legal any more, and legal
steps in any order that go on as long as there are any leave the same nodes, commas and the words `from` apart. -/
theorem run_order_immaterial (e : Engine) (w : Workspace) (ht : w.tree.Consistent) (hs : w.tree.Shape)
    (hl : w.tree.Local) (he : w.tree.ExportsDeclarations) (ho : w.tree.Orderly) : ∃ report hs w',
      e.run w = .ok report w' ∧ e.runNoted w = .ok (report, hs) w' ∧
      Relation.ReflTransGen LegalStep w.tree w'.tree ∧
      ∀ h, hs.getLast? = some h → h.Idle → (∀ t, ¬ LegalStep w'.tree t) ∧
        ∀ t, Relation.ReflTransGen LegalStep w.tree t → (∀ t', ¬ LegalStep t t') →
          ∀ n < w.tree.size, w.tree.kind n ≠ .comma → w.tree.kind n ≠ .fromWord →
            w'.tree.contains n = t.contains n := by
  have hw : WellShaped True w.tree := ⟨ht, hs, fun _ => he⟩
  obtain ⟨report, hs, w', hrun, hnoted, _⟩ := run_ends e hw
  have hp : Passes { w with report := {} } hs w' := Engine.runNoted_passes hnoted
  have hr : Reached w.tree w.tree := .refl hw hl
  have hsteps : Relation.ReflTransGen LegalStep w.tree w'.tree := Passes.steps hw ho
    (w := { w with report := {} }) hp hr
  refine ⟨report, hs, w', hrun, hnoted, hsteps, fun h hlast hidle => ?_⟩
  have hnormal := Stable.normal hw ho (hr.steps hw ho hsteps) (hp.stable ht hlast hidle)
  exact ⟨hnormal, fun t ht hnone n hn hcomma hfrom =>
    normal_unique hw ho hl hsteps hnormal ht hnone ⟨hn, hcomma, hfrom⟩⟩

/-- A run on `let a = 1; let b = 2; b; c = 3;` that ends with an idle pass took out `let a = 1;` and `c = 3;`. So does
any series of legal steps that goes on to the end. -/
theorem run_order_immaterial_smallProgram : ∃ report hs w' h,
    ({ untilStable := true } : Engine).runNoted { tree := smallProgram } = .ok (report, hs) w' ∧
      hs.getLast? = some h ∧ h.Idle ∧ Relation.ReflTransGen LegalStep smallProgram w'.tree ∧
      (∀ t, ¬ LegalStep w'.tree t) ∧
      ∀ t, Relation.ReflTransGen LegalStep smallProgram t → (∀ t', ¬ LegalStep t t') →
        t.contains 3 = false ∧ t.contains 9 = true ∧ t.contains 16 = false := by
  obtain ⟨ht, hs, hl, he⟩ := admissible_iff.mp admissible_smallProgram
  have ho : smallProgram.Orderly := (orderly_iff ht).mpr (by decide +kernel)
  obtain ⟨report, hs, w', _, hnoted, hsteps, hall⟩ :=
    run_order_immaterial { untilStable := true } { tree := smallProgram } ht hs hl he ho
  have hout : answer? (({ untilStable := true } : Engine).runNoted { tree := smallProgram }) (fun r w' =>
      (r.2.getLast?.map fun h => h.excisions.isEmpty && h.turns.all fun t => !t.removed,
        [3, 9, 16].map w'.tree.contains)) = some (some true, [false, true, false]) := by decide +kernel
  rw [hnoted] at hout
  obtain ⟨hlast, hleft⟩ := Prod.mk.inj (Option.some.inj hout)
  obtain ⟨h, hlast, hidle⟩ := Option.map_eq_some_iff.mp hlast
  have hidle : h.Idle := by
    obtain ⟨hx, ht⟩ := Bool.and_eq_true_iff.mp hidle
    exact ⟨List.isEmpty_iff.mp hx, fun t hmem => by simpa using List.all_eq_true.mp ht t hmem⟩
  obtain ⟨hnormal, hsame⟩ := hall h hlast hidle
  refine ⟨report, hs, w', h, hnoted, hlast, hidle, hsteps, hnormal, fun t hts hnone => ?_⟩
  have hsame := hsame t hts hnone
  simp only [List.map_cons, List.map_nil, List.cons.injEq, and_true] at hleft
  rw [← hsame 3 (by decide) (by decide) (by decide), ← hsame 9 (by decide) (by decide) (by decide),
    ← hsame 16 (by decide) (by decide) (by decide)]
  exact hleft

end DeadCode
