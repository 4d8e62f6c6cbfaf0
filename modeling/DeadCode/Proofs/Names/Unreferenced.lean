import DeadCode.Proofs.Names.Constructs
import DeadCode.Proofs.Names.Following

/-!
Taking out what nothing refers to. A name is declared in a scope around whatever refers to it
(`reference_inside`); so a construct whose own names have no references, and whose inner names belong to
scopes inside, leaves by a closed cut (`closed_of_inside`). This holds of functions, of parts of imports and
of dangling statements, and of declarators in a tree that is `Local`.
-/

namespace DeadCode.Tree

variable {t t' : Tree} {q n m : NodeId} {gone : List NodeId} {refs : List (NodeId × NodeId)}
  {d : Declaration NodeId}

/-! ## Scopes below a scope -/

section Inside

variable (ht : t.Consistent) (hn : t.Below t.root n) (hscope : t.isScope n = true)

include ht hn hscope

theorem scopeNode_inside (hb : t.Below n m) : t.Below n (t.scopeNode m) := by
  induction hb with
  | refl => rw [scopeNode_of_isScope ht hn hscope]; exact .refl
  | @step p c hp hb ih =>
    rw [scopeNode_eq ht (hn.trans (.step hp hb)), outerNode_child hp]
    split
    · exact .step hp hb
    · exact ih

theorem outerNode_inside (hb : t.Below n m) (hne : m ≠ n) : t.Below n (t.outerNode m) := by
  obtain ⟨p, hp, hb⟩ := hb.parent hne
  rw [outerNode_child hp]
  exact scopeNode_inside ht hn hscope hb

theorem hoistNode_inside (hk : t.scopeKind n = .function) (hb : t.Below n m) :
    t.Below n (t.hoistNode m) := by
  have hfirst : ∀ m rest, t.scopeChain m = n :: rest → t.hoistNode m = n := by
    intro m rest hc
    rw [hoistNode, hc, List.find?_cons, hk]
    rfl
  induction hb with
  | refl =>
    obtain ⟨rest, hc⟩ := scopeChain_eq_cons ht hn
    rw [scopeNode_of_isScope ht hn hscope] at hc
    rw [hfirst n rest hc]
    exact .refl
  | @step p c hp hb ih =>
    have hpr := hn.trans hb
    rw [hoistNode, scopeChain_child ht hp hpr]
    split
    · rw [List.find?_cons]
      split
      · exact .step hp hb
      · exact ih
    · exact ih

/-- What a node strictly inside a function declares belongs to a scope inside the function. -/
theorem target_inside (hk : t.scopeKind n = .function) (hb : t.Below n m) (hne : m ≠ n)
    (hd : d ∈ t.declarationsOf m) : t.Below n d.target := by
  rcases Visit.target_of_mem ht hd with he | he | he
  · exact he ▸ outerNode_inside ht hn hscope hb hne
  · exact he ▸ scopeNode_inside ht hn hscope hb
  · rw [he]
    exact hoistNode_inside ht hn hscope hk hb

end Inside

/-! ## References stand inside the scope of their binding -/

theorem target_above (ht : t.Consistent) (hm : t.Below t.root m) (hd : d ∈ t.declarationsOf m) :
    t.Below d.target m := by
  rcases Visit.target_of_mem ht hd with he | he | he
  · exact he ▸ outerNode_below ht hm
  · exact he ▸ scopeNode_below ht hm
  · rw [he]
    exact ((mem_scopeChain_iff ht hm).mp (hoistNode_mem ht hm)).1

theorem binding_of_declared? {s : NodeId} {name : String} (h : t.declared? s name = some d) :
    d ∈ t.bindings ∧ d.target = s ∧ t.text d.identifier = name := by
  have hb := firstOf?_introducing t t.declarations s name
  rw [declared?] at h
  rw [h] at hb
  exact firstOf?_spec hb

theorem binding_of_resolve? (ht : t.Consistent) {s : NodeId} (hs : t.Below t.root s) {name : String}
    (h : t.resolve? s name = some d) : d ∈ t.bindings ∧ t.Below d.target s ∧ t.text d.identifier = name := by
  obtain ⟨a, ha, hd⟩ := List.exists_of_findSome?_eq_some h
  obtain ⟨hmem, rfl, hname⟩ := binding_of_declared? hd
  exact ⟨hmem, ((mem_scopeChain_iff ht hs).mp ha).1, hname⟩

/-- A reference counts towards a binding of a scope around it. -/
theorem reference_inside (ht : t.Consistent) {r : NodeId × NodeId} (hr : r ∈ t.references) :
    t.Below t.root r.1 ∧ ∃ d ∈ t.bindings, d.identifier = r.2 ∧ t.Below d.target r.1 := by
  rcases mem_references_iff.mp hr with hr | hr | hr
  · obtain ⟨e, he, d, hd, _, rfl⟩ := mem_redeclared_iff.mp hr
    obtain ⟨hmem, htarget, _⟩ := binding_of_declared? hd
    obtain ⟨m, hm, hem⟩ := mem_declarations_iff.mp he
    have hm := (mem_walk_iff ht).mp hm
    refine ⟨declared_attached ht he, d, hmem, rfl, ?_⟩
    rw [htarget]
    exact (target_above ht hm hem).trans (declarer_below ht hem)
  · obtain ⟨s, hs, i, _, d, hd, rfl⟩ := mem_exported_iff.mp hr
    have hs := (mem_walk_iff ht).mp hs
    obtain ⟨hmem, hb, _⟩ := binding_of_resolve? ht (root_below_outerNode ht hs) hd
    exact ⟨hs, d, hmem, rfl, hb.trans (outerNode_below ht hs)⟩
  · obtain ⟨m, hm, _, d, hd, rfl⟩ := mem_used_iff.mp hr
    have hm := (mem_walk_iff ht).mp hm
    obtain ⟨hmem, hb, _⟩ := binding_of_resolve? ht (root_below_scopeNode ht hm) hd
    exact ⟨hm, d, hmem, rfl, hb.trans (scopeNode_below ht hm)⟩

theorem named_subset_references : ∀ r ∈ t.named, r ∈ t.references := fun _ hr =>
  mem_references_iff.mpr ((List.mem_append.mp hr).imp_right .inr)

theorem exported_subset_references : ∀ r ∈ t.exported, r ∈ t.references := fun _ hr =>
  mem_references_iff.mpr (.inr (.inl hr))

/-! ## Closed cuts -/

/-- No reference to a declared name. -/
def Free (refs : List (NodeId × NodeId)) (d : Declaration NodeId) : Prop := ∀ r ∈ refs, r.2 ≠ d.identifier

section Framed

variable (ht : t.Consistent) (hs : t.Framed) (h : Pruning t t' q n gone) (hq : t.Below t.root q)
  (hsub : ∀ r ∈ refs, r ∈ t.references)

include ht hs h hq hsub

/-- A cut is closed if the names that leave have no references or belong to scopes that leave. -/
theorem closed_of_inside
    (hinner : ∀ m d, t.Below n m → d ∈ t.declarationsOf m → d ∈ t.bindings → Free refs d ∨ t.Below n d.target)
    (himport : (t.kind q).listsImports = true → ∀ m d, Stays t gone m → t.kind m = .importStatement →
      d ∈ t.declarationsOf m → t.Below n d.identifier → Free refs d) :
    Closed refs (t.offcut gone) := by
  intro r hr hoff
  obtain ⟨_, d, hd, hid, htarget⟩ := reference_inside ht (hsub r hr)
  have hdecl := mem_declarations_of_binding hd
  obtain ⟨m, hm, hdm⟩ := mem_declarations_iff.mp hdecl
  have hm := (mem_walk_iff ht).mp hm
  rw [← hid] at hoff
  have hn : t.Below t.root n := .step h.cut.parent_mem hq
  rcases declared_offcut ht hs h hq hm hdm hoff with hb | ⟨hst, hk, hlists⟩
  · rcases hinner m d hb hdm hd with hfree | hin
    · exact absurd hid.symm (hfree r hr)
    · exact (h.cut.mem_offcut_iff ht hq).mpr ⟨n, h.cut.node_mem, hin.trans htarget⟩
  · have hb := (mem_walkFrom_iff ht hn).mp ((offcut_declared ht hs h hq hdecl).mp hoff)
    exact absurd hid.symm (himport hlists m d hst hk hdm hb r hr)

/-- A part of an import leaves that declares nothing inside itself. -/
theorem closed_of_importPart (hinner : ∀ m, t.Below n m → (t.kind m).declares = true → t.children m = [])
    (himport : ∀ m, ∀ d ∈ t.declarationsOf m, t.kind d.identifier = .identifier → (t.visitOf m).Imports t d →
      ¬ t.Below n m → t.Below n d.identifier → Free refs d) : Closed refs (t.offcut gone) := by
  have hn : t.Below t.root n := .step h.cut.parent_mem hq
  refine closed_of_inside ht hs h hq hsub (fun m e hb he _ => ?_) fun _ m e hst hk he hb => ?_
  · exact absurd he (declares_nothing ht (hn.trans hb) (hinner m hb (Visit.declares_of_mem he)))
  · exact himport m e he (Visit.identifier_of_import ht hk he) (Visit.imports_of_import ht hk he)
      (hst.2 n h.cut.node_mem) hb

theorem closed_of_leaf (hnil : t.children n = [])
    (hfree : t.kind n = .identifier → ∀ d : Declaration NodeId, d.identifier = n → Free refs d) :
    Closed refs (t.offcut gone) := by
  refine closed_of_importPart ht hs h hq hsub (fun m hb _ => ?_) fun m e _ hki _ _ hb => ?_
  · rw [hb.eq_of_leaf ht hnil]
    exact hnil
  · have he := hb.eq_of_leaf ht hnil
    exact hfree (he ▸ hki) e he

/-- An import clause without named parts. -/
theorem closed_of_clause (hk : t.kind n = .importClause) (hnil : t.namedChildren n = []) :
    Closed refs (t.offcut gone) := by
  have hn : t.Below t.root n := .step h.cut.parent_mem hq
  have hleaf : ∀ c ∈ t.children n, t.children c = [] := fun c hc => by
    refine hs.leaf c (hn.trans (.of_parent ((ht.mem_children n c).mp hc))) (.inr ?_)
    simpa using List.filter_eq_nil_iff.mp hnil c hc
  refine closed_of_importPart ht hs h hq hsub (fun m hb hdecl => ?_) fun m e _ hki himp hnb hb => ?_
  · by_cases hne : m = n
    · rw [hne, hk] at hdecl
      cases hdecl
    · obtain ⟨c, hc, hcm⟩ := hb.child hne
      have hc := hleaf c ((ht.mem_children n c).mpr hc)
      rw [hcm.eq_of_leaf ht hc]
      exact hc
  · rcases himp.between ht hb hnb with he | he | hk' | ⟨_, hne⟩
    · rw [← he, hk] at hki
      cases hki
    · rcases himp with ⟨_, hkp, _, _, _, _, _, _⟩ | ⟨_, hp, _, _, _⟩ | ⟨_, _, hkp, _⟩ | ⟨_, _, hkp, _⟩
      · rw [← he, hk] at hkp
        cases hkp
      · rw [← hp, ← he, hk] at hki
        cases hki
      · rw [← he, hk] at hkp
        cases hkp
      · rw [← he, hk] at hkp
        cases hkp
    · rw [hk] at hk'
      cases hk'
    · exact absurd hnil hne

end Framed

section Shape

variable (ht : t.Consistent) (hs : t.Shape) (h : Pruning t t' q n gone) (hq : t.Below t.root q)
  (hsub : ∀ r ∈ refs, r ∈ t.references)

include ht hs h hq hsub

theorem closed_of_function
    (hk : t.kind n = .functionDeclaration ∨ t.kind n = .generatorFunctionDeclaration)
    (hd : t.child? n .name = some d.identifier) (hlists : (t.kind q).listsImports = false)
    (hfree : Free refs d) : Closed refs (t.offcut gone) := by
  have hn : t.Below t.root n := .step h.cut.parent_mem hq
  have hroot : n ≠ t.root := by
    rintro rfl
    rw [hs.root_program] at hk
    rcases hk with hk | hk <;> cases hk
  have hopen : t.scopeOpened? n = some .function := by
    have hnamed := hs.function_named n hn hk
    rcases hk with hk | hk <;> simp [scopeOpened?, opens?, hroot, hnamed, hk, Kind.isFunction]
  have hscope : t.isScope n = true := by simp [isScope, hopen]
  have hkind : t.scopeKind n = .function := by simp [scopeKind, hopen]
  refine closed_of_inside ht hs.toFramed h hq hsub (fun m e hb he _ => ?_) fun hl => ?_
  · by_cases hne : m = n
    · subst hne
      rcases Visit.function_of_mem hk he with hname | htarget
      · obtain hid := Option.some.inj (hd.symm.trans hname)
        exact .inl fun r hr => hid ▸ hfree r hr
      · refine .inr ?_
        rw [htarget, visitOf, scopeNode_of_isScope ht hn hscope]
        exact .refl
    · exact .inr (target_inside ht hn hscope hkind hb hne he)
  · rw [hlists] at hl
    cases hl

/-- A declarator leaves alone or with its declaration. -/
theorem closed_of_declarator (hl : t.Local) {p : NodeId} (hk : t.kind p = .variableDeclarator)
    (hp : p = n ∨ t.parent p = some n ∧ ∀ c ∈ t.children n, t.kind c = .variableDeclarator → c = p)
    (hlists : (t.kind q).listsImports = false)
    (hfree : ∀ d ∈ t.declarationsOf p, d ∈ t.bindings → Free refs d) : Closed refs (t.offcut gone) := by
  have hn : t.Below t.root n := .step h.cut.parent_mem hq
  have hpn : t.Below n p := by
    rcases hp with rfl | ⟨hp, _⟩
    · exact .refl
    · exact .of_parent hp
  refine closed_of_inside ht hs.toFramed h hq hsub (fun m e hb he hbind => ?_) fun hl => ?_
  · by_cases hmp : t.Below p m
    · by_cases hne : m = p
      · exact .inl (hfree e (hne ▸ he) hbind)
      · exact .inr (hpn.trans (hl e hbind m he p (hn.trans hpn) hk hmp hne))
    · -- beside its declarators a declaration declares nothing
      rcases hp with rfl | ⟨hp, honly⟩
      · exact absurd hb hmp
      have hholds := (hs.keyword p n (hn.trans hpn) hk hp).1
      have hne : m ≠ n := by
        rintro rfl
        have := Visit.declares_of_mem he
        rw [visitOf, Kind.not_declares_of_holdsDeclarators hholds] at this
        cases this
      obtain ⟨c, hc, hcm⟩ := hb.child hne
      have hcm' := (ht.mem_children n c).mpr hc
      rcases hs.declaration p n (hn.trans hpn) hk hp c hcm' with hkc | hnil
      · exact absurd (honly c hcm' hkc ▸ hcm) hmp
      · rw [hcm.eq_of_leaf ht hnil] at he
        exact absurd he (declares_nothing ht (hn.trans (.of_parent hc)) hnil)
  · rw [hlists] at hl
    cases hl

/-- An import specifier declares one name. -/
theorem closed_of_specifier (hk : t.kind n = .importSpecifier)
    (hd : (t.child? n .alias).or (t.child? n .name) = some d.identifier) (hfree : Free refs d) :
    Closed refs (t.offcut gone) := by
  have hn : t.Below t.root n := .step h.cut.parent_mem hq
  refine closed_of_importPart ht hs.toFramed h hq hsub (fun m hb hdecl => ?_) fun m e _ hki himp hnb hb => ?_
  · rw [hs.specifier n m hn hk hb] at hdecl
    cases hdecl
  · rcases himp.between ht hb hnb with he | he | hk' | ⟨hk', _⟩
    · rw [← he, hk] at hki
      cases hki
    · rcases himp with ⟨_, _, hspec, _, _, _, _, _⟩ | ⟨_, hp, _, _, _⟩ | ⟨_, _, hkp, _⟩ | ⟨_, _, hkp, _⟩
      · have hid := Visit.identifier_of_specifier (s := e.path) (by rw [hspec]; exact List.mem_singleton_self e)
        rw [← he, hd] at hid
        exact fun r hr => Option.some.inj hid ▸ hfree r hr
      · rw [← hp, ← he, hk] at hki
        cases hki
      · rw [← he, hk] at hkp
        cases hkp
      · rw [← he, hk] at hkp
        cases hkp
    · rw [hk] at hk'
      cases hk'
    · rw [hk] at hk'
      cases hk'

/-- A statement of the form `name = number;`. -/
theorem closed_of_assignment {e l r : NodeId} (hk : t.kind n = .expressionStatement)
    (he : t.parent e = some n) (hke : t.kind e = .assignmentExpression) (hl : t.child? e .left = some l)
    (hr : t.child? e .right = some r) (hkl : t.kind l = .identifier) (hkr : t.kind r = .number)
    (hlists : (t.kind q).listsImports = false) : Closed refs (t.offcut gone) := by
  have hn : t.Below t.root n := .step h.cut.parent_mem hq
  have her : t.Below t.root e := .step he hn
  -- the two operands are leaves, so is all else below the statement
  have hpart : ∀ c ∈ t.children e, t.children c = [] := fun c hc => by
    have hcr : t.Below t.root c := .step ((ht.mem_children e c).mp hc) her
    rcases hs.assignment e her hke c hc with hc | hc | hc
    · obtain rfl := Option.some.inj (hl.symm.trans hc)
      exact hs.leaf l hcr (.inl (by rw [hkl]; rfl))
    · obtain rfl := Option.some.inj (hr.symm.trans hc)
      exact hs.leaf r hcr (.inl (by rw [hkr]; rfl))
    · exact hc
  have hother : ∀ c ∈ t.children n, c ≠ e → t.children c = [] := fun c hc hce => by
    obtain ⟨x, hx⟩ := hs.expression n hn hk
    by_cases hxe : e = x
    · exact hx c hc (hxe ▸ hce)
    · have := mem_children_of_child? hl
      rw [hx e ((ht.mem_children n e).mpr he) hxe] at this
      exact absurd this List.not_mem_nil
  have hnone : ∀ m, t.Below n m → ∀ d, d ∉ t.declarationsOf m := fun m hb d hd => by
    have hdecl : (t.kind m).declares = true := Visit.declares_of_mem hd
    by_cases hmn : m = n
    · rw [hmn, hk] at hdecl
      cases hdecl
    obtain ⟨c, hc, hcm⟩ := hb.child hmn
    by_cases hce : c = e
    · subst hce
      by_cases hmc : m = c
      · rw [hmc, hke] at hdecl
        cases hdecl
      · obtain ⟨x, hx, hxm⟩ := hcm.child hmc
        have hnil := hpart x ((ht.mem_children c x).mpr hx)
        rw [hxm.eq_of_leaf ht hnil] at hd
        exact declares_nothing ht (her.trans (.of_parent hx)) hnil hd
    · have hnil := hother c ((ht.mem_children n c).mpr hc) hce
      rw [hcm.eq_of_leaf ht hnil] at hd
      exact declares_nothing ht (hn.trans (.of_parent hc)) hnil hd
  refine closed_of_inside ht hs.toFramed h hq hsub (fun m d hb hd _ => absurd hd (hnone m hb d)) fun hl => ?_
  rw [hlists] at hl
  cases hl

end Shape

end DeadCode.Tree
