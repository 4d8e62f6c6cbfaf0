import DeadCode.Proofs.Engine.Passes
import DeadCode.Proofs.Names.Checks
import DeadCode.Proofs.Names.Meaning

/-!
What a run guarantees to the names of a program. Main statements: `run_keeps_meaning` (what is left in the tree
means what it meant), `excision_unreferenced` (a construct is taken out when a new crawl would find no
reference to its binding) and `excision_leaves_write_targets` (no read of its name is left).
-/

namespace DeadCode

open DeadCode.Tree Workspace

/-! ## Names keep their meaning -/

/-- A run returns, and a node that is left counts towards the bindings it counted towards. -/
theorem run_keeps_meaning (e : Engine) (w : Workspace) (ht : w.tree.Consistent) (hs : w.tree.Shape)
    (hl : w.tree.Local) (a a' : Analysis) : ∃ report w', e.run w = .ok report w' ∧
      ∀ n, (a.crawl w.tree).countedFor n ≠ [] → w.tree.kind n ≠ .exportStatement →
        w'.tree.contains n = true →
        List.Forall₂ (SameBinding (a.crawl w.tree) (a'.crawl w'.tree)) ((a.crawl w.tree).countedFor n)
          ((a'.crawl w'.tree).countedFor n) := by
  obtain ⟨report, _, w', hrun, _, hshape, hkeeps, _⟩ :=
    run_ends (X := False) e ⟨ht, hs, False.elim⟩
  refine ⟨report, w', hrun, fun n hn hk hin => ?_⟩
  obtain ⟨b, hb⟩ := List.exists_mem_of_ne_nil _ hn
  have hlt := (crawl_countedFor ht a hb).1.lt_size ht
  exact (hkeeps hl).counted ht hshape.consistent a a' hlt
    ((contains_iff_below hshape.consistent).mp hin) hk

theorem run_keeps_meaning_smallProgram : ∃ report w',
    ({} : Engine).run { tree := smallProgram } = .ok report w' ∧ w'.tree.contains 14 = true ∧
      w'.tree.contains 3 = false ∧
      List.Forall₂ (SameBinding (Analysis.crawl {} smallProgram) (Analysis.crawl {} w'.tree))
        ((Analysis.crawl {} smallProgram).countedFor 14) ((Analysis.crawl {} w'.tree).countedFor 14) := by
  obtain ⟨ht, hs, hl, _⟩ := admissible_iff.mp admissible_smallProgram
  obtain ⟨report, w', hrun, hall⟩ := run_keeps_meaning {} { tree := smallProgram } ht hs hl {} {}
  have hout : answer? (({} : Engine).run { tree := smallProgram }) (fun _ w' =>
      w'.tree.contains 14 && !w'.tree.contains 3) = some true := by decide +kernel
  rw [hrun] at hout
  obtain ⟨hin, hgone⟩ := Bool.and_eq_true_iff.mp (Option.some.inj hout)
  exact ⟨report, w', hrun, hin, by simpa using hgone, hall 14 (by decide +kernel) (by decide +kernel) hin⟩

/-! ## References are counted when a construct is taken out -/

/-- A construct is taken out of a tree in which a new crawl counts no reference to its binding, provided that
no earlier removal of the pass took away a name that something left in the tree referred to. In a `Local`
tree none does. -/
theorem excision_unreferenced (e : Engine) (w : Workspace) (ht : w.tree.Consistent) (hs : w.tree.Shape)
    (he : w.tree.ExportsDeclarations) (a : Analysis) : ∃ report hs w', e.run w = .ok report w' ∧
      e.runNoted w = .ok (report, hs) w' ∧ ∀ h ∈ hs, ∀ earlier x later,
        h.excisions = earlier ++ x :: later → (w.tree.Local ∨ ∀ y ∈ earlier, ¬ y.Severs True) →
        x.before.tree.contains x.binding.path = true ∧ x.after.tree.contains x.binding.path = false ∧
          ∃ b, (a.crawl x.before.tree).declared.get? x.binding.identifier = some b ∧
            ((a.crawl x.before.tree).binding b).references = [] := by
  obtain ⟨report, hs, w', hrun, hnoted, _, _, hexcisions⟩ := run_ends (X := True) e ⟨ht, hs, fun _ => he⟩
  refine ⟨report, hs, w', hrun, hnoted, fun h hh earlier x later hx hclean => ?_⟩
  obtain ⟨hmade, hidle⟩ := hexcisions h hh earlier x later hx
  obtain ⟨d, hd, hid, hnamed, hexported⟩ := hidle hclean
  have hct := hmade.wellShaped.consistent
  have hr := (reflects_crawl hct a).records
  obtain ⟨b, hb, _⟩ := hr.record d hd
  obtain ⟨hlt, hbid⟩ := hr.declared hb
  refine ⟨(contains_iff_below hct).mpr hmade.attached, ?_, b, hid ▸ hb, ?_⟩
  · have hct' := (hmade.trims.wellShaped hmade.wellShaped).consistent
    have := hmade.detached
    rw [← contains_iff_below hct'] at this
    simpa using this
  · rw [hr.ledger.references b hlt, hbid, List.map_eq_nil_iff, List.filter_eq_nil_iff]
    intro r hr' he
    have he : r.2 = d.identifier := by simpa using he
    rcases List.mem_append.mp hr' with hr' | hr'
    · rcases List.mem_append.mp hr' with hr' | hr'
      · exact hnamed r (redeclared_subset_named r hr') he
      · exact hexported trivial r hr' he
    · exact hnamed r (used_subset_named r hr') he

/-- The program `let x; function f() { let c = class { static { var x } }; return x } f; function g() { let y = x }
g;`, in which `c` takes with it what `return x` refers to. -/
def hoistingProgram : Tree where
  nodes := #[
    { kind := .program, children := [1, 5, 21, 23, 32] },
    { kind := .lexicalDeclaration, children := [2, 3], parent := some 0 },
    { kind := .other "let", named := false, field := some .kind, text := "let", parent := some 1 },
    { kind := .variableDeclarator, children := [4], parent := some 1 },
    { kind := .identifier, field := some .name, text := "x", parent := some 3 },
    { kind := .functionDeclaration, children := [6, 7], parent := some 0 },
    { kind := .identifier, field := some .name, text := "f", parent := some 5 },
    { kind := .statementBlock, field := some .body, children := [8, 19], parent := some 5 },
    { kind := .lexicalDeclaration, children := [9, 10], parent := some 7 },
    { kind := .other "let", named := false, field := some .kind, text := "let", parent := some 8 },
    { kind := .variableDeclarator, children := [11, 12], parent := some 8 },
    { kind := .identifier, field := some .name, text := "c", parent := some 10 },
    { kind := .plainClass, children := [13], parent := some 10 },
    { kind := .other "class_body", field := some .body, children := [14], parent := some 12 },
    { kind := .other "class_static_block", children := [15], parent := some 13 },
    { kind := .variableDeclaration, children := [16, 17], parent := some 14 },
    { kind := .other "var", named := false, text := "var", parent := some 15 },
    { kind := .variableDeclarator, children := [18], parent := some 15 },
    { kind := .identifier, field := some .name, text := "x", parent := some 17 },
    { kind := .other "return_statement", children := [20], parent := some 7 },
    { kind := .identifier, text := "x", parent := some 19 },
    { kind := .expressionStatement, children := [22], parent := some 0 },
    { kind := .identifier, text := "f", parent := some 21 },
    { kind := .functionDeclaration, children := [24, 25], parent := some 0 },
    { kind := .identifier, field := some .name, text := "g", parent := some 23 },
    { kind := .statementBlock, field := some .body, children := [26], parent := some 23 },
    { kind := .lexicalDeclaration, children := [27, 28], parent := some 25 },
    { kind := .other "let", named := false, field := some .kind, text := "let", parent := some 26 },
    { kind := .variableDeclarator, children := [29, 30], parent := some 26 },
    { kind := .identifier, field := some .name, text := "y", parent := some 28 },
    { kind := .other "value", children := [31], parent := some 28 },
    { kind := .identifier, text := "x", parent := some 30 },
    { kind := .expressionStatement, children := [33], parent := some 0 },
    { kind := .identifier, text := "g", parent := some 32 }]

/-- The same program with `return z`. What `c` takes with it is referred to by nothing. -/
def shadowingProgram : Tree where
  nodes := hoistingProgram.nodes.set! 20 { kind := .identifier, text := "z", parent := some 19 }

/-- A tree that is not `Local`. The third removal is that of `x`; the two before it took away no name that was
referred to. -/
theorem excision_unreferenced_shadowingProgram : ¬ shadowingProgram.Local ∧ ∃ report h w' c y x b,
    ({} : Engine).runNoted { tree := shadowingProgram } = .ok (report, [h]) w' ∧ h.excisions = [c, y, x] ∧
      (∀ z ∈ [c, y], ¬ z.Severs True) ∧ x.binding.name = "x" ∧
      x.before.tree.contains x.binding.path = true ∧ x.after.tree.contains x.binding.path = false ∧
      (Analysis.crawl {} x.before.tree).declared.get? x.binding.identifier = some b ∧
      ((Analysis.crawl {} x.before.tree).binding b).references = [] := by
  have ht : shadowingProgram.Consistent := by decide +kernel
  refine ⟨(local_iff ht).not.mpr (by decide +kernel), ?_⟩
  obtain ⟨report, hs, w', _, hnoted, hall⟩ := excision_unreferenced {} { tree := shadowingProgram } ht
    ((shape_iff ht).mpr (by decide +kernel)) ((exportsDeclarations_iff ht).mpr (by decide +kernel)) {}
  have hout : answer? (({} : Engine).runNoted { tree := shadowingProgram }) (fun r _ =>
      r.2.map fun h => h.excisions.map fun x => (x.binding.name, decide (x.after.tree.Consistent ∧
        ∀ r ∈ x.before.tree.named ++ x.before.tree.exported,
          x.after.tree.contains r.1 = true → x.after.tree.contains r.2 = true))) =
      some [[("c", true), ("y", true), ("x", true)]] := by decide +kernel
  rw [hnoted] at hout
  obtain ⟨h, rfl, hh⟩ := List.map_eq_singleton_iff.mp (Option.some.inj hout)
  obtain ⟨c, rest, hx, hc, hrest⟩ := List.map_eq_cons_iff.mp hh
  obtain ⟨y, rest, rfl, hy, hrest⟩ := List.map_eq_cons_iff.mp hrest
  obtain ⟨x, rfl, hlast⟩ := List.map_eq_singleton_iff.mp hrest
  obtain ⟨_, hc⟩ := Prod.mk.inj hc
  obtain ⟨_, hy⟩ := Prod.mk.inj hy
  have hclean : ∀ z ∈ [c, y], ¬ z.Severs True := by
    intro z hz
    rcases List.mem_pair.mp hz with rfl | rfl
    · exact not_severs_of_contains (of_decide_eq_true hc).1 (of_decide_eq_true hc).2
    · exact not_severs_of_contains (of_decide_eq_true hy).1 (of_decide_eq_true hy).2
  obtain ⟨hbefore, hafter, b, hb, hrefs⟩ := hall h (List.mem_singleton_self h) [c, y] x [] hx (.inr hclean)
  exact ⟨report, h, w', c, y, x, b, hnoted, hx, hclean, (Prod.mk.inj hlast).1, hbefore, hafter, hb, hrefs⟩

/-- The condition is needed: with `return x` the third removal is that of an `x` to which this refers by then. -/
theorem excision_stale_hoistingProgram : hoistingProgram.Consistent ∧ hoistingProgram.Shape ∧
    hoistingProgram.ExportsDeclarations ∧ ∃ report h w' c y x b,
    ({} : Engine).runNoted { tree := hoistingProgram } = .ok (report, [h]) w' ∧ h.excisions = [c, y, x] ∧
      (Analysis.crawl {} x.before.tree).declared.get? x.binding.identifier = some b ∧
      ((Analysis.crawl {} x.before.tree).binding b).references = [20] := by
  have ht : hoistingProgram.Consistent := by decide +kernel
  refine ⟨ht, (shape_iff ht).mpr (by decide +kernel), (exportsDeclarations_iff ht).mpr (by decide +kernel), ?_⟩
  have hout : answer? (({} : Engine).runNoted { tree := hoistingProgram }) (fun r _ =>
      r.2.map fun h => h.excisions.map fun x =>
        ((Analysis.crawl {} x.before.tree).declared.get? x.binding.identifier).map fun b =>
          ((Analysis.crawl {} x.before.tree).binding b).references) = some [[some [], some [], some [20]]] := by
    decide +kernel
  obtain ⟨⟨report, hs⟩, w', hrun, hout⟩ := answer?_eq_some.mp hout
  obtain ⟨h, rfl, hh⟩ := List.map_eq_singleton_iff.mp hout
  obtain ⟨c, rest, hx, _, hrest⟩ := List.map_eq_cons_iff.mp hh
  obtain ⟨y, rest, rfl, _, hrest⟩ := List.map_eq_cons_iff.mp hrest
  obtain ⟨x, rfl, hlast⟩ := List.map_eq_singleton_iff.mp hrest
  obtain ⟨b, hb, hrefs⟩ := Option.map_eq_some_iff.mp hlast
  exact ⟨report, h, w', c, y, x, b, hrun, hx, hb, hrefs⟩

/-! ## No read is left -/

/-- A variable occurs under a name where nothing is declared. The last kind is that of a shorthand in a pattern,
which is written. -/
@[mk_iff]
structure Tree.Occurs (t : Tree) (n : NodeId) (name : String) : Prop where
  kind : (t.kind n).isReference = true ∨ t.kind n = .shorthandPropertyIdentifierPattern
  text : t.text n = name
  refers : t.refers n = true
  declaring : n ∉ t.declaring

instance (t : Tree) (n : NodeId) (name : String) : Decidable (t.Occurs n name) :=
  decidable_of_iff _ (occurs_iff t n name).symm

variable {P X : Prop} {w w' : Workspace} {n : NodeId} {name : String}

/-- What occurs after some prunings occurred before. -/
theorem Trims.occurs (h : Trims P X w w') (hw : WellShaped X w.tree) (hn : n < w.tree.size)
    (hroot : w'.tree.Below w'.tree.root n) (ho : w'.tree.Occurs n name) : w.tree.Occurs n name := by
  induction h with
  | refl => exact ho
  | report r _ ih => exact ih hroot ho
  | @settle u t q m gone hpre hp hq _ ih =>
    have hu := hpre.wellShaped hw
    have hlt := lt_of_lt_of_le hn (hpre.edits.remains hw.consistent).size_le
    rw [tree_settle] at hroot ho
    have hst := (stays_iff hu.consistent hp.cut hlt).mpr hroot
    have hoff := ((stays_iff_mem hu.consistent hp.cut hq).mp hst).2
    refine ih hst.1 ⟨?_, ?_, ?_, ?_⟩
    · rw [← hp.cut.kind_eq n hlt]
      exact ho.kind
    · rw [← hp.cut.text_eq n hlt]
      exact ho.text
    · rw [← refers_stays hu.consistent hu.shape.toFramed hp hst]
      exact ho.refers
    · rw [← declaring_cut hu.consistent hu.shape.toFramed hp hq hoff]
      exact ho.declaring

/-- Of the occurrences that stood for a binding before its construct was taken out, those left are shorthands in
patterns. -/
theorem excision_leaves_write_targets (e : Engine) (w : Workspace) (ht : w.tree.Consistent)
    (hs : w.tree.Shape) (a : Analysis) : ∃ report hs w', e.run w = .ok report w' ∧
      e.runNoted w = .ok (report, hs) w' ∧ ∀ h ∈ hs, ∀ earlier x later,
        h.excisions = earlier ++ x :: later → (w.tree.Local ∨ ∀ y ∈ earlier, ¬ y.Severs False) →
        ∀ n b, x.before.tree.contains n = true → x.after.tree.contains n = true →
          x.after.tree.Occurs n x.binding.name →
          (a.crawl x.before.tree).lookup? ((a.crawl x.before.tree).enclosing x.before.tree n)
            x.binding.name = some b →
          ((a.crawl x.before.tree).binding b).identifier = x.binding.identifier →
          x.after.tree.kind n = .shorthandPropertyIdentifierPattern := by
  obtain ⟨report, hs, w', hrun, hnoted, _, _, hexcisions⟩ := run_ends (X := False) e ⟨ht, hs, False.elim⟩
  refine ⟨report, hs, w', hrun, hnoted, fun h hh earlier x later hx hclean n b hbefore hafter hocc hlook hid => ?_⟩
  obtain ⟨hmade, hidle⟩ := hexcisions h hh earlier x later hx
  obtain ⟨d, _, hdid, hfree, _⟩ := hidle hclean
  have hct := hmade.wellShaped.consistent
  have hroot := (contains_iff_below hct).mp hbefore
  have hroot' := (contains_iff_below (hmade.trims.wellShaped hmade.wellShaped).consistent).mp hafter
  have ho := hmade.trims.occurs hmade.wellShaped (hroot.lt_size hct) hroot' hocc
  have hkind := hmade.trims.kind_eq hmade.wellShaped (hroot.lt_size hct)
  refine hocc.kind.resolve_left fun hk => ?_
  -- a read would be on record in the tree before
  have huse : x.before.tree.isUse n = true := by
    rw [hkind] at hk
    simp [isUse, hk, ho.refers, ho.declaring]
  have hres := crawl_lookup? hct a hroot x.binding.name
  rw [hlook, ← ho.text] at hres
  obtain ⟨d', hd', hid'⟩ := Option.map_eq_some_iff.mp hres.symm
  have hmem := used_subset_named _ (mem_used_iff.mpr ⟨_, (mem_walk_iff hct).mpr hroot, huse, _, hd', rfl⟩)
  exact hfree _ hmem (hid'.trans (hid.trans hdid.symm))

/-- The program `let x; ({ x } = y);`. -/
def patternProgram : Tree where
  nodes := #[
    { kind := .program, children := [1, 5] },
    { kind := .lexicalDeclaration, children := [2, 3], parent := some 0 },
    { kind := .other "let", named := false, field := some .kind, text := "let", parent := some 1 },
    { kind := .variableDeclarator, children := [4], parent := some 1 },
    { kind := .identifier, field := some .name, text := "x", parent := some 3 },
    { kind := .expressionStatement, children := [6], parent := some 0 },
    { kind := .other "parenthesized_expression", children := [7], parent := some 5 },
    { kind := .assignmentExpression, children := [8, 10], parent := some 6 },
    { kind := .objectPattern, field := some .left, children := [9], parent := some 7 },
    { kind := .shorthandPropertyIdentifierPattern, text := "x", parent := some 8 },
    { kind := .identifier, field := some .right, text := "y", parent := some 7 }]

theorem admissible_patternProgram : patternProgram.Admissible := by decide +kernel

/-- A write that is left. -/
theorem excision_leaves_write_targets_patternProgram : ∃ report h w' x,
    ({} : Engine).runNoted { tree := patternProgram } = .ok (report, [h]) w' ∧ h.excisions = [x] ∧
      x.binding.name = "x" ∧ x.after.tree.contains 9 = true ∧ x.after.tree.Occurs 9 x.binding.name ∧
      x.after.tree.kind 9 = .shorthandPropertyIdentifierPattern := by
  obtain ⟨ht, hs, hl, _⟩ := admissible_iff.mp admissible_patternProgram
  obtain ⟨report, hs, w', _, hnoted, hall⟩ := excision_leaves_write_targets {} { tree := patternProgram } ht hs {}
  have hout : answer? (({} : Engine).runNoted { tree := patternProgram }) (fun r _ =>
      r.2.map fun h => h.excisions.map fun x =>
        decide (x.binding.name = "x" ∧ x.before.tree.contains 9 = true ∧ x.after.tree.contains 9 = true ∧
          x.after.tree.Occurs 9 x.binding.name ∧ ((Analysis.crawl {} x.before.tree).lookup?
            ((Analysis.crawl {} x.before.tree).enclosing x.before.tree 9) x.binding.name).map
              (fun b => ((Analysis.crawl {} x.before.tree).binding b).identifier) = some x.binding.identifier)) =
      some [[true]] := by decide +kernel
  rw [hnoted] at hout
  obtain ⟨h, rfl, hh⟩ := List.map_eq_singleton_iff.mp (Option.some.inj hout)
  obtain ⟨x, hx, hfacts⟩ := List.map_eq_singleton_iff.mp hh
  obtain ⟨hname, hbefore, hafter, hocc, hlook⟩ := of_decide_eq_true hfacts
  obtain ⟨b, hb, hid⟩ := Option.map_eq_some_iff.mp hlook
  exact ⟨report, h, w', x, hnoted, hx, hname, hafter, hocc,
    hall h (List.mem_singleton_self h) [] x [] hx (.inl hl) 9 b hbefore hafter hocc hb hid⟩

end DeadCode
