import DeadCode.Proofs.Engine.Dangling
import DeadCode.Proofs.Engine.Passes

/-!
When a declarator leaves, alone or with its declaration. Main statement: `declarator_leaves_unreferenced`; no name
that the declarator introduced is referenced then, whatever its pattern. Of a name that was bound before in the
same scope the code does not ask (`declarator_leaves_unreferenced_patternParameter`).
-/

namespace DeadCode

open DeadCode.Tree Workspace

variable {X : Prop} {id : AnalysisId} {w w' : Workspace} {b : Binding} {h : History} {t₀ : Tree}

theorem Job.ends_removeBinding_spares (id : AnalysisId) (b : Binding) : (removeBinding id b).Ends w
    (fun done _ => done = true → b.construct = .declarator → ¬ (w.analysis id).Holds b) Whatever := by
  rw [removeBinding]
  refine ends_ite (fun _ h => (by cases h)) fun _ => ?_
  rw [ends_bind, ends_get]
  refine ends_ite (fun _ h => (by cases h)) fun _ => ?_
  cases hc : b.construct with
  | declarator =>
    change (removeDeclarator id b).Ends w _ Whatever
    rw [removeDeclarator, ends_bind, ends_get]
    simp only []
    split
    · exact fun h => (by cases h)
    · rename_i hheld
      exact (ends_whatever _).imp fun _ _ _ _ _ hh => hheld ((holds_iff _ b).mpr hh)
  | function => exact (ends_whatever _).imp fun _ _ _ _ h => (by cases h)
  | importSpecifier => exact (ends_whatever _).imp fun _ _ _ _ h => (by cases h)
  | importDefault => exact (ends_whatever _).imp fun _ _ _ _ h => (by cases h)
  | other => exact (ends_whatever _).imp fun _ _ _ _ h => (by cases h)

/-- No name that the declarator of the binding introduced is referenced in the tree of that moment. -/
def Excision.Spent (X : Prop) (x : Excision) : Prop :=
  x.binding.construct = .declarator → ∃ d ∈ x.before.tree.bindings, d.identifier = x.binding.identifier ∧
    d.path = x.binding.path ∧ d.construct = .declarator ∧
    ∀ e ∈ x.before.tree.declarationsOf d.path, e ∈ x.before.tree.bindings → x.before.tree.Unused X e

/-- Declarators left only when spent, provided that what was taken out before was harmless. -/
def Spent (X L : Prop) (xs : List Excision) : Prop :=
  ∀ earlier x later, xs = earlier ++ x :: later → Harmless X L earlier → x.Spent X

variable {β : BindingId}

/-- What the guard of the code asks is enough, if the analysis is up to date. -/
theorem Listed.spent (hl : Listed id w β b) (ht : Tracked X id w) (hu : UpToDate X id w)
    (hx : Excised b w w') (hguard : b.construct = .declarator → ¬ (w.analysis id).Holds b) :
    Excision.Spent X ⟨b, w, w'⟩ := by
  intro hc
  have hd := hl.doomed ht
  obtain ⟨d, hmem, hdesc, _⟩ := hd.declaration hu hx.attached
  exact ⟨d, hmem, hdesc.identifier.symm, hdesc.path.symm, hdesc.construct.symm.trans hc,
    hdesc.path ▸ hd.names_unused hu hx.attached hc (hguard hc)⟩

theorem upheld_spent : Upheld id (fun h w => Walked X t₀ id h w ∧ Spent X t₀.Local h.excisions) Job.Never where
  refresh _ hj := ⟨hj.1.refresh, hj.2⟩
  excise hj hl := by
    refine ((Walked.upheld.excise hj.1 hl).and ((Job.ends_removeBinding_any hl).and
      (Job.ends_removeBinding_spares id _))).mono (fun done w' hdone htrue => ?_) fun _ _ h => h.1
    obtain ⟨hwalked, hexcised, hguard⟩ := hdone
    refine ⟨hwalked htrue, Lists.forall_split_concat hj.2 fun hh => ?_⟩
    exact hl.spent hj.1.tracked (hj.1.current hh).1 (hexcised.1 htrue) (hguard htrue)
  sight hj hn _ := ⟨hj.1.sight _ hn, hj.2⟩

theorem Job.ends_runPassNoted_spent (hw : WellShaped X w.tree) :
    runPassNoted.Ends w (fun r _ => Spent X w.tree.Local r.2.excisions) Whatever := by
  refine (ends_runPassNoted_passage (P := True) hw.consistent upheld_spent.whatever
    ⟨.start hw, fun earlier x later he => absurd he.symm (by simp)⟩ fun _ _ _ _ _ _ _ _ _ =>
      ends_whatever _).imp fun r w' h => ?_
  obtain ⟨p, u, v, hp, ⟨_, hspent⟩, _⟩ := h
  rw [hp.history]
  exact hspent

/-! ## In terms of a crawl -/

/-- A crawl counts no reference to a binding that nothing refers to. -/
theorem Tree.Unused.references {t : Tree} (ht : t.Consistent) (a : Analysis) {d : Declaration NodeId}
    (hd : t.Unused True d) {c : BindingId} (hc : (a.crawl t).declared.get? d.identifier = some c) :
    ((a.crawl t).binding c).references = [] := by
  have hr := (reflects_crawl ht a).records
  obtain ⟨hlt, hid⟩ := hr.declared hc
  rw [hr.ledger.references c hlt, hid, List.map_eq_nil_iff, List.filter_eq_nil_iff]
  intro r hmem he
  have he : r.2 = d.identifier := by simpa using he
  rcases List.mem_append.mp hmem with hmem | hmem
  · rcases List.mem_append.mp hmem with hmem | hmem
    · exact hd.1 r (redeclared_subset_named r hmem) he
    · exact hd.2 trivial r hmem he
  · exact hd.1 r (used_subset_named r hmem) he

/-- In a crawl, each name of a declarator's pattern is bound in the scope of the declarator's bindings; if the
declarator introduced it, it is a declaration of the declarator. -/
theorem crawl_patternName {t : Tree} (ht : t.Consistent) (a : Analysis) {d : Declaration NodeId} (hd : d ∈ t.bindings)
    (hc : d.construct = .declarator) {β : BindingId} (hβ : (a.crawl t).declared.get? d.identifier = some β)
    {i : NodeId} (hi : i ∈ t.patternNames d.path .name) : ∃ c,
      (a.crawl t).own? ((a.crawl t).binding β).scope (t.text i) = some c ∧
      (((a.crawl t).binding c).path = d.path → ∃ e ∈ t.declarationsOf d.path, e ∈ t.bindings ∧
        (a.crawl t).declared.get? e.identifier = some c) := by
  have hr := (reflects_crawl ht a).records
  obtain ⟨hk, hdm⟩ := declarator_of_construct ht (mem_declarations_of_binding hd) hc
  have hroot := path_attached ht (mem_declarations_of_binding hd)
  -- the declaration of the name by this declarator
  obtain ⟨e, he, rfl⟩ := (mem_patternNames_iff hk).mp hi
  have htarget := (Visit.declarator_of_mem (v := t.visitOf d.path) hk hdm he).1
  have hedecl : e ∈ t.declarations := mem_declarations_iff.mpr ⟨d.path, (mem_walk_iff ht).mpr hroot, he⟩
  -- the first declaration of the name in the same scope
  obtain ⟨f, hf⟩ := firstOf?_isSome (t := t) hedecl
  obtain ⟨hfb, hft, hfn⟩ := binding_of_declared? (t := t) hf
  obtain ⟨c, hfc, hfdesc⟩ := hr.record f hfb
  obtain ⟨b, hb, hddesc⟩ := hr.record d hd
  obtain rfl := Option.some.inj (hβ.symm.trans hb)
  obtain ⟨hown, _⟩ := hr.own?_of_mem hfb (target_mem_scopeNodes ht hfb) hfc
  have hscope : ((a.crawl t).binding c).scope = ((a.crawl t).binding β).scope :=
    hr.scopes.unique _ hfdesc.scope_lt _ hddesc.scope_lt
      (by rw [hfdesc.scope, hddesc.scope, hft, htarget])
  rw [hscope, hfdesc.name, hfn] at hown
  refine ⟨c, hown, fun hpath => ⟨f, ?_, hfb, hfc⟩⟩
  have hfpath : f.path = d.path := hfdesc.path.symm.trans hpath
  exact hfpath ▸ mem_declarationsOf_path ht (mem_declarations_of_binding hfb) (hfpath.symm ▸ hk)

/-! ## Runs -/

/-- When a declarator leaves, alone or with its declaration, no name that it introduced is referenced, whatever
its pattern. A name of the pattern for which the scope held a binding before is not asked for. It is assumed, as
for `excision_unreferenced`, that no earlier removal of the pass took away a name that was still referred to. -/
theorem declarator_leaves_unreferenced (e : Engine) (w : Workspace) (ht : w.tree.Consistent) (hs : w.tree.Shape)
    (he : w.tree.ExportsDeclarations) (a : Analysis) : ∃ report hs w', e.run w = .ok report w' ∧
      e.runNoted w = .ok (report, hs) w' ∧ ∀ h ∈ hs, ∀ earlier x later,
        h.excisions = earlier ++ x :: later → (w.tree.Local ∨ ∀ y ∈ earlier, ¬ y.Severs True) →
        x.binding.construct = .declarator →
        x.before.tree.contains x.binding.path = true ∧ x.after.tree.contains x.binding.path = false ∧
          ∃ β, (a.crawl x.before.tree).declared.get? x.binding.identifier = some β ∧
            ∀ i ∈ x.before.tree.patternNames x.binding.path .name, ∃ c,
              (a.crawl x.before.tree).own? ((a.crawl x.before.tree).binding β).scope (x.before.tree.text i) =
                some c ∧
              (((a.crawl x.before.tree).binding c).path = x.binding.path →
                ((a.crawl x.before.tree).binding c).references = []) := by
  have hw : WellShaped True w.tree := ⟨ht, hs, fun _ => he⟩
  obtain ⟨report, hs, w', hrun, hnoted, _, _, hexcisions⟩ := run_ends e hw
  refine ⟨report, hs, w', hrun, hnoted, fun h hh earlier x later hx hclean hc => ?_⟩
  obtain ⟨u, k, u', hpass, hu, hl⟩ := (Engine.runNoted_passes hnoted).began hw hh
  obtain ⟨d, hd, hid, hpath, hdc, hunused⟩ :=
    (Job.ends_runPassNoted_spent hu).of_ok hpass earlier x later hx (hclean.imp_left hl) hc
  obtain ⟨hmade, _⟩ := hexcisions h hh earlier x later hx
  have hct := hmade.wellShaped.consistent
  have hct' := (hmade.trims.wellShaped hmade.wellShaped).consistent
  have hout : x.after.tree.contains x.binding.path = false := by
    have := hmade.detached
    rw [← contains_iff_below hct'] at this
    simpa using this
  obtain ⟨β, hβ, _⟩ := (reflects_crawl hct a).records.record d hd
  refine ⟨(contains_iff_below hct).mpr hmade.attached, hout, β, hid ▸ hβ, fun i hi => ?_⟩
  rw [← hpath] at hi ⊢
  obtain ⟨c, hown, hown'⟩ := crawl_patternName hct a hd hdc hβ hi
  refine ⟨c, hown, fun hcp => ?_⟩
  obtain ⟨f, hf, hfb, hfc⟩ := hown' hcp
  exact (hunused f hf hfb).references hct a hfc

/-- The program `function f(a) { var { a, b } = g(); return a; } f;`. -/
def patternParameter : Tree where
  nodes := #[
    { kind := .program, children := [1, 16] },
    { kind := .functionDeclaration, children := [2, 3, 4], parent := some 0 },
    { kind := .identifier, field := some .name, text := "f", parent := some 1 },
    { kind := .formalParameters, field := some .parameters, children := [5], parent := some 1 },
    { kind := .statementBlock, field := some .body, children := [6, 14], parent := some 1 },
    { kind := .identifier, text := "a", parent := some 3 },
    { kind := .variableDeclaration, children := [7, 8], parent := some 4 },
    { kind := .other "var", named := false, text := "var", parent := some 6 },
    { kind := .variableDeclarator, children := [9, 12], parent := some 6 },
    { kind := .objectPattern, field := some .name, children := [10, 11], parent := some 8 },
    { kind := .shorthandPropertyIdentifierPattern, text := "a", parent := some 9 },
    { kind := .shorthandPropertyIdentifierPattern, text := "b", parent := some 9 },
    { kind := .other "call_expression", field := some .value, children := [13], parent := some 8 },
    { kind := .identifier, text := "g", parent := some 12 },
    { kind := .other "return_statement", children := [15], parent := some 4 },
    { kind := .identifier, text := "a", parent := some 14 },
    { kind := .expressionStatement, children := [17], parent := some 0 },
    { kind := .identifier, text := "f", parent := some 16 }]

theorem admissible_patternParameter : patternParameter.Admissible := by decide +kernel

/-- The declarator leaves for `b`, to which nothing refers, and takes with it the value of `a`, which `return a`
reads: the parameter introduced that name. -/
theorem declarator_leaves_unreferenced_patternParameter : ∃ report h w' x β b a,
    ({} : Engine).runNoted { tree := patternParameter } = .ok (report, [h]) w' ∧ h.excisions = [x] ∧
      x.binding.construct = .declarator ∧ x.after.tree.contains 8 = false ∧
      (Analysis.crawl {} x.before.tree).declared.get? x.binding.identifier = some β ∧
      (Analysis.crawl {} x.before.tree).own? ((Analysis.crawl {} x.before.tree).binding β).scope "b" = some b ∧
      ((Analysis.crawl {} x.before.tree).binding b).references = [] ∧
      (Analysis.crawl {} x.before.tree).own? ((Analysis.crawl {} x.before.tree).binding β).scope "a" = some a ∧
      ((Analysis.crawl {} x.before.tree).binding a).references = [10, 15] ∧ x.after.tree.contains 15 = true := by
  obtain ⟨ht, hs, hl, he⟩ := admissible_iff.mp admissible_patternParameter
  obtain ⟨report, hs, w', _, hnoted, hall⟩ :=
    declarator_leaves_unreferenced {} { tree := patternParameter } ht hs he {}
  have hout : answer? (({} : Engine).runNoted { tree := patternParameter }) (fun r _ =>
      r.2.map fun h => h.excisions.map fun x =>
        decide (x.binding.construct = .declarator ∧ x.binding.path = 8 ∧
          x.before.tree.patternNames x.binding.path .name = [10, 11] ∧ x.before.tree.text 11 = "b" ∧
          x.after.tree.contains 15 = true ∧
          (((Analysis.crawl {} x.before.tree).declared.get? x.binding.identifier).bind fun β =>
            ((Analysis.crawl {} x.before.tree).own? ((Analysis.crawl {} x.before.tree).binding β).scope "a").map
              fun c => ((Analysis.crawl {} x.before.tree).binding c).references) = some [10, 15] ∧
          (((Analysis.crawl {} x.before.tree).declared.get? x.binding.identifier).bind fun β =>
            ((Analysis.crawl {} x.before.tree).own? ((Analysis.crawl {} x.before.tree).binding β).scope "b").map
              fun c => ((Analysis.crawl {} x.before.tree).binding c).path) = some 8)) = some [[true]] := by
    decide +kernel
  rw [hnoted] at hout
  obtain ⟨h, rfl, hh⟩ := List.map_eq_singleton_iff.mp (Option.some.inj hout)
  obtain ⟨x, hx, hfacts⟩ := List.map_eq_singleton_iff.mp hh
  obtain ⟨hc, hpath, hpattern, hb, hread, hrefs, hbpath⟩ := of_decide_eq_true hfacts
  obtain ⟨_, hgone, β, hβ, hnames⟩ := hall h (List.mem_singleton_self h) [] x [] hx (.inl hl) hc
  rw [hpattern] at hnames
  obtain ⟨b, hown, hfree⟩ := hnames 11 (by simp)
  rw [hb] at hown
  rw [hβ, Option.bind_some] at hrefs hbpath
  rw [hown, Option.map_some] at hbpath
  obtain ⟨a, hown', hrefs⟩ := Option.map_eq_some_iff.mp hrefs
  exact ⟨report, h, w', x, β, b, a, hnoted, hx, hc, hpath ▸ hgone, hβ, hown,
    hfree ((Option.some.inj hbpath).trans hpath.symm), hown', hrefs, hread⟩

end DeadCode
