import DeadCode.Proofs.Engine.Dangling
import DeadCode.Proofs.Engine.Passes
import DeadCode.Proofs.Names.Exports

/-!
What a run takes from under an export statement. Main statement: `exported_leaves_beside_others`; a function or a whole
declaration never leaves from there. A declarator does if its declaration has others, and the export statement does
not list its names: the declaration is an ambient one (`exported_leaves_beside_others_ambient`), or the name is hoisted
out of a scope that has one like it.
-/

namespace DeadCode

open DeadCode.Tree Workspace

/-! ## Prunings of a tree -/

/-- Prunings one after the other. -/
inductive Tree.Pruned (t : Tree) : Tree → Prop
  | refl : Pruned t t
  | step {u v : Tree} {q n : NodeId} {gone : List NodeId} : Pruned t u → Pruning u v q n gone → u.Below u.root q →
      Pruned t v

variable {P X : Prop} {id : AnalysisId} {w w' : Workspace} {t t' : Tree} {h : History} {β : BindingId} {b : Binding}

namespace Tree.Pruned

theorem wellShaped (h : Pruned t t') (hw : WellShaped X t) : WellShaped X t' := by
  induction h with
  | refl => exact hw
  | step _ hp _ ih => exact ih.cut hp

theorem statementsNest (h : Pruned t t') (hw : WellShaped X t) (hn : t.StatementsNest) : t'.StatementsNest := by
  induction h with
  | refl => exact hn
  | step hpre hp _ ih => exact statementsNest_cut (hpre.wellShaped hw).consistent hp.cut ih

/-- What shadows an attached binding did so from the beginning. -/
theorem shadows (h : Pruned t t') (hw : WellShaped X t) {s : NodeId} (hp : t'.Below t'.root b.path)
    (hkp : t'.kind b.path = .variableDeclarator) (hs : t'.Below t'.root s) (hks : t'.kind s = .exportStatement)
    (hx : t'.Shadows s b) : t.Shadows s b := by
  induction h with
  | refl => exact hx
  | @step u v q n gone hpre hprune hq ih =>
    have hu := hpre.wellShaped hw
    obtain ⟨hpst, hkp'⟩ := hprune.cut.stays_of_kind hu.consistent hp (by rw [hkp]; decide)
    obtain ⟨hsst, hks'⟩ := hprune.cut.stays_of_kind hu.consistent hs (by rw [hks]; decide)
    exact ih hpst.1 (hkp'.trans hkp) hsst.1 (hks'.trans hks)
      (hx.of_cut hu.consistent hu.shape.toFramed hprune hq hpst hsst)

/-- A crawl of what is left. -/
theorem countsExports (h : Pruned t t') (hw : WellShaped X t) (a : Analysis) :
    (a.crawl t').CountsExports t t' := by
  have hw' := h.wellShaped hw
  intro β hβ hc hroot s hx
  have hk : t'.kind ((a.crawl t').binding β).path = .variableDeclarator := by
    have := (sited_crawl hw'.consistent a).placed β hβ hroot
    rwa [Binding.Placed, hc] at this
  refine (countsExports_crawl hw'.consistent hw'.shape a β hβ hc hroot s hx).imp_right fun hshadow => ?_
  exact h.shadows hw hroot hk (hx.scopeNode hw'.consistent hw'.shape hroot hk).1 hx.kind hshadow

end Tree.Pruned

theorem Trims.pruned (h : Trims P X w w') (hp : Pruned t w.tree) : Pruned t w'.tree := by
  induction h with
  | refl => exact hp
  | settle _ hprune hq _ ih =>
    rw [tree_settle]
    exact ih.step hprune hq
  | report r _ ih => exact ih

theorem Turns.pruned {us : List Turn} (h : Turns w us w') (hp : Pruned t w.tree) (hw : WellShaped X t) :
    Pruned t w'.tree := by
  induction h with
  | nil => exact hp
  | cons _ hturn _ ih =>
    refine ih ?_
    rcases hturn with ⟨_, s, q, u, _, hroot, hq, hcut, he⟩ | ⟨_, he, _⟩
    · obtain ⟨gone, hprune, _⟩ := hcut.pruning
      rw [he]
      change Pruned t (Workspace.settle _ u s).tree
      rw [tree_settle]
      exact hp.step hprune (hroot.root_of_below (hp.wellShaped hw).consistent (.of_parent hq))
    · rwa [he]

/-- The analysis goes on counting what the export statements export. -/
theorem Trims.countsExports (h : Trims P X w w') (hw : Tracked X id w) (hv : (w.analysis id).version ≠ none)
    (hc : (w.analysis id).CountsExports t w.tree) : (w'.analysis id).CountsExports t w'.tree := by
  induction h with
  | refl => exact hc
  | report r _ ih => exact ih
  | @settle u v q n gone hpre hprune hq _ ih =>
    have htr := hpre.tracked hw
    have hsited := (htr.sited.resolve_left (hpre.edits.crawled hw.tracks hv)).2
    rw [analysis_settle htr.follows, tree_settle]
    exact ih.subtract htr.tree.consistent hprune hq hsited

/-! ## What leaves -/

/-- Of what an export statement stands over only a declarator among others was taken out, one that the statement does
not export by itself or whose name `t₀` shadows. -/
def Excision.SparesExports (t₀ : Tree) (x : Excision) : Prop :=
  x.binding.construct = .declarator ∨ x.binding.construct = .function →
    ∀ s, x.before.tree.ExportedUnder s x.binding.path → x.binding.construct = .declarator ∧
      ∃ d, x.before.tree.parent x.binding.path = some d ∧ x.after.tree.contains d = true ∧
        ¬ x.before.tree.Sole d x.binding.path ∧
        (x.before.tree.Exports s x.binding.path → t₀.Shadows s x.binding)

/-- Where a statement is cut from there are statements. -/
theorem Tree.StatementCut.holdsStatements {q n : NodeId} (h : StatementCut t t' q n) :
    (t.kind q).holdsStatements = true := by
  rcases h with ⟨hk, _⟩ | ⟨hk, _⟩
  · exact Kind.holdsStatements_of_listsStatements hk
  · exact Kind.holdsStatements_of_hasSlot hk

theorem Drops.sparesExports {ns : List NodeId} {u : Workspace} (hd : Drops id w b ns u) (r : Report)
    (h : Doomed X id w β b) (hroot : w.tree.Below w.tree.root b.path) (hn : w.tree.StatementsNest)
    (hc : (w.analysis id).CountsExports t w.tree) :
    Excision.SparesExports t ⟨b, w, { u with report := r }⟩ := by
  have ht := h.tracked.tree.consistent
  have hs := h.tracked.tree.shape
  intro hconstruct s hx
  have hplaced := h.placed hroot
  change b.construct = .declarator ∨ b.construct = .function at hconstruct
  have hne : ∀ {k}, w.tree.kind b.path = k → k ≠ .exportStatement → b.path ≠ s := fun hk hne he => by
    rw [← hk, he, hx.kind] at hne
    exact hne rfl
  cases hd with
  | function hfunction hcut =>
    -- a function declaration stands in a list of statements or in a slot
    rw [Binding.Placed, hfunction] at hplaced
    have hq := hcut.cut.choose_spec.parent_mem
    have := hx.not_holdsStatements ht hs hn (by rcases hplaced with hk | hk <;> exact hne hk (by decide)) hroot hq
    rw [hcut.holdsStatements] at this
    cases this
  | @declaration q D t' hdeclarator _ hp _ hcut =>
    -- so does a declaration
    rw [Binding.Placed, hdeclarator] at hplaced
    have hholds := (hs.keyword b.path D hroot hplaced hp).1
    have hx := hx.parent ht (hne hplaced (by decide)) hroot hp
      (isScope_eq_false hs (Kind.not_opensScope_of_holdsDeclarators hholds))
    have hDs : D ≠ s := fun he => by
      rw [he, hx.kind] at hholds
      cases hholds
    have := hx.not_holdsStatements ht hs hn hDs (hroot.root_of_below ht (.of_parent hp))
      hcut.cut.choose_spec.parent_mem
    rw [hcut.holdsStatements] at this
    cases this
  | @declarator D t' gone hdeclarator _ hsole hcut =>
    have hD := hroot.root_of_below ht (.of_parent hcut.parent_mem)
    have hstays := hcut.site_stays ht hD
    refine ⟨hdeclarator, D, hcut.parent_mem, ?_, hsole, fun hexports => ?_⟩
    · change (w.settle t' b.path).tree.contains D = true
      rw [tree_settle, contains_iff_below (hcut.consistent ht)]
      exact (stays_iff ht hcut.toCut (hstays.lt_size ht)).mp hstays
    · refine (h.binding ▸ hc β h.lt (by rwa [h.binding]) (by rwa [h.binding]) s (by rwa [h.binding])).resolve_left ?_
      rw [h.unreferenced]
      exact List.not_mem_nil
  | specifier himport => rw [himport] at hconstruct; rcases hconstruct with h | h <;> cases h
  | default himport => rw [himport] at hconstruct; rcases hconstruct with h | h <;> cases h
  | clause himport => rw [himport] at hconstruct; rcases hconstruct with h | h <;> cases h
  | word himport => rw [himport] at hconstruct; rcases hconstruct with h | h <;> cases h

/-! ## Passes -/

/-- What holds throughout a pass of a run that began with the tree `t₀`. -/
structure Sparing (t₀ : Tree) (id : AnalysisId) (h : History) (w : Workspace) : Prop where
  tracked : Tracked False id w
  pruned : Pruned t₀ w.tree
  counts : (w.analysis id).CountsExports t₀ w.tree
  spares : ∀ x ∈ h.excisions, x.SparesExports t₀

variable {t₀ : Tree}

theorem Sparing.start (hw : WellShaped False t₀) (hp : Pruned t₀ w.tree) :
    Sparing t₀ w.startAnalysis.1 {} w.startAnalysis.2 where
  tracked := (tracked_startAnalysis (hp.wellShaped hw)).1
  pruned := hp
  counts β hβ := by
    have hnone : w.startAnalysis.2.analysis w.startAnalysis.1 = {} := by
      simp [startAnalysis, join, analysis]
    rw [hnone] at hβ
    exact absurd hβ (Nat.not_lt_zero _)
  spares _ hx := absurd hx List.not_mem_nil

theorem Sparing.refresh (hw : WellShaped False t₀) (hj : Sparing t₀ id h w) : Sparing t₀ id h (w.refresh id) := by
  have htree := (refresh_frame w id).1
  refine ⟨hj.tracked.refresh, htree ▸ hj.pruned, ?_, hj.spares⟩
  rw [analysis_refresh hj.tracked.follows.lt, htree]
  split
  · exact hj.pruned.countsExports hw _
  · exact hj.counts

theorem Sparing.upheld (hw : WellShaped False t₀) (hn : t₀.StatementsNest) : Upheld id (Sparing t₀ id) Job.Never where
  refresh _ hj := hj.refresh hw
  excise {h w β b} hj hl := by
    have hd := hl.doomed hj.tracked
    refine ((Job.ends_removeBinding hd).and (Job.ends_removeBinding_drops hd)).mono (fun done w' hdone htrue => ?_)
      fun _ _ h => h.1
    obtain ⟨⟨_, _, htrims⟩, ⟨_, hdrops⟩, hroot⟩ := hdone
    obtain ⟨ns, u, r, hdrop, rfl⟩ := hdrops htrue
    refine ⟨htrims.tracked hj.tracked, htrims.pruned hj.pruned, htrims.countsExports hj.tracked hl.crawled hj.counts,
      fun x hx => ?_⟩
    rcases List.mem_append.mp hx with hx | hx
    · exact hj.spares x hx
    · obtain rfl := List.mem_singleton.mp hx
      exact hdrop.sparesExports r hd (hroot htrue) (hj.pruned.statementsNest hw hn) hj.counts
  sight hj _ _ := ⟨hj.tracked, hj.pruned, hj.counts, hj.spares⟩

theorem Job.ends_runPassNoted_sparing (hw : WellShaped False t₀) (hn : t₀.StatementsNest) (hp : Pruned t₀ w.tree) :
    runPassNoted.Ends w (fun r w' => Pruned t₀ w'.tree ∧ ∀ x ∈ r.2.excisions, x.SparesExports t₀) Whatever := by
  refine (ends_runPassNoted_passage (P := True) (hp.wellShaped hw).consistent (Sparing.upheld hw hn).whatever
    (.start hw hp) fun _ _ _ _ _ _ _ _ _ => ends_whatever _).imp fun r w' h => ?_
  obtain ⟨p, u, v, hpassage, hj, _, rfl, _⟩ := h
  refine ⟨hpassage.turns.pruned hj.pruned hw, ?_⟩
  rw [hpassage.history]
  exact hj.spares

theorem Passes.sparesExports {hs : List History} (h : Passes w hs w') (hw : WellShaped False t₀)
    (hn : t₀.StatementsNest) (hp : Pruned t₀ w.tree) : ∀ h ∈ hs, ∀ x ∈ h.excisions, x.SparesExports t₀ := by
  induction h with
  | nil => exact fun h hh => absurd hh List.not_mem_nil
  | cons hrun _ ih =>
    obtain ⟨hpruned, hspares⟩ := (Job.ends_runPassNoted_sparing hw hn hp).of_ok hrun
    intro h hh
    rcases List.mem_cons.mp hh with rfl | hh
    · exact hspares
    · exact ih hpruned h hh

/-! ## Runs -/

/-- If an export statement stands between a construct and the scope around it, no run takes out the construct of a
function or a whole declaration on account of its own name. A declarator leaves only if its declaration holds others,
and then either the declaration is not the one in the field of the export statement, or it is a `var` whose name some
nearer scope around the export statement has too. -/
theorem exported_leaves_beside_others (e : Engine) (w : Workspace) (ht : w.tree.Consistent) (hs : w.tree.Shape)
    (hn : w.tree.StatementsNest) : ∃ report hs w', e.run w = .ok report w' ∧
      e.runNoted w = .ok (report, hs) w' ∧ ∀ h ∈ hs, ∀ x ∈ h.excisions,
        x.binding.construct = .declarator ∨ x.binding.construct = .function →
        ∀ s, x.before.tree.ExportedUnder s x.binding.path → x.binding.construct = .declarator ∧
          ∃ d, x.before.tree.parent x.binding.path = some d ∧ x.after.tree.contains d = true ∧
            ¬ x.before.tree.Sole d x.binding.path ∧
            (x.before.tree.Exports s x.binding.path → w.tree.Shadows s x.binding) := by
  have hw : WellShaped False w.tree := ⟨ht, hs, False.elim⟩
  obtain ⟨report, hs, w', hrun, hnoted, _⟩ := run_ends e hw
  exact ⟨report, hs, w', hrun, hnoted, (Engine.runNoted_passes hnoted).sparesExports hw hn .refl⟩

/-- The program `export declare const a, b;`. -/
def ambientExport : Tree where
  nodes := #[
    { kind := .program, children := [1] },
    { kind := .exportStatement, children := [2, 3], parent := some 0 },
    { kind := .other "export", named := false, text := "export", parent := some 1 },
    { kind := .other "ambient_declaration", field := some .declaration, children := [4, 5], parent := some 1 },
    { kind := .other "declare", named := false, text := "declare", parent := some 3 },
    { kind := .lexicalDeclaration, children := [6, 7, 9, 10, 12], parent := some 3 },
    { kind := .other "const", named := false, field := some .kind, text := "const", parent := some 5 },
    { kind := .variableDeclarator, children := [8], parent := some 5 },
    { kind := .identifier, field := some .name, text := "a", parent := some 7 },
    { kind := .comma, named := false, text := ",", parent := some 5 },
    { kind := .variableDeclarator, children := [11], parent := some 5 },
    { kind := .identifier, field := some .name, text := "b", parent := some 10 },
    { kind := .other ";", named := false, text := ";", parent := some 5 }]

/-- Here `a` leaves: what the export statement has in its field is the ambient declaration. The last declarator stays. -/
theorem exported_leaves_beside_others_ambient : ∃ report h w' x,
    ({} : Engine).runNoted { tree := ambientExport } = .ok (report, [h]) w' ∧ h.excisions = [x] ∧
      x.binding.construct = .declarator ∧ x.binding.name = "a" ∧ x.before.tree.ExportedUnder 1 x.binding.path ∧
      x.after.tree.contains x.binding.path = false ∧ x.after.tree.contains 5 = true ∧
      ¬ x.before.tree.Sole 5 x.binding.path := by
  have ht : ambientExport.Consistent := by decide +kernel
  have hs : ambientExport.Shape := (shape_iff ht).mpr (by decide +kernel)
  have hn : ambientExport.StatementsNest := (statementsNest_iff ht).mpr (by decide +kernel)
  obtain ⟨report, hs, w', _, hnoted, hall⟩ := exported_leaves_beside_others {} { tree := ambientExport } ht hs hn
  have hout : answer? (({} : Engine).runNoted { tree := ambientExport }) (fun r _ =>
      r.2.map fun h => h.excisions.map fun x =>
        decide (x.before.tree = ambientExport ∧ x.binding.construct = .declarator ∧ x.binding.name = "a" ∧
          x.binding.path = 7 ∧ x.after.tree.contains x.binding.path = false)) = some [[true]] := by
    decide +kernel
  rw [hnoted] at hout
  obtain ⟨h, rfl, hh⟩ := List.map_eq_singleton_iff.mp (Option.some.inj hout)
  obtain ⟨x, hx, hfacts⟩ := List.map_eq_singleton_iff.mp hh
  obtain ⟨htree, hc, hname, hpath, hgone⟩ := of_decide_eq_true hfacts
  have hunder : x.before.tree.ExportedUnder 1 x.binding.path := by
    rw [htree, hpath]
    exact exportedUnder_of_lineage ht ((mem_walk_iff ht).mp (by decide +kernel)) (by decide +kernel)
      (by decide +kernel) (by decide +kernel)
  obtain ⟨_, d, hd, hin, hsole, _⟩ := hall h (List.mem_singleton_self h) x (by rw [hx]; simp) (.inl hc) 1 hunder
  obtain rfl : d = 5 := by
    rw [htree, hpath] at hd
    exact Option.some.inj (hd.symm.trans (by decide +kernel))
  exact ⟨report, h, w', x, hnoted, hx, hc, hname, hunder, hgone, hin, hsole⟩

end DeadCode
