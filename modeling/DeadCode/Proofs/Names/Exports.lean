import DeadCode.Proofs.Names.Current
import DeadCode.Proofs.Names.Sited

/-!
What stands under an export statement. It counts as a reference to the names that its own declaration introduces
(`crawl_counts_export`), unless one of them is a `var` and a scope in between has a name of its own like it. A
statement under it stands in a scope of its own (`ExportedUnder.not_holdsStatements`).
-/

namespace DeadCode

/-- Kinds of nodes that hold statements, as a list or in a slot. -/
def Kind.holdsStatements : Kind → Bool
  | .program | .statementBlock | .switchCase | .switchDefault | .ifStatement | .elseClause | .whileStatement
  | .doStatement | .forStatement | .forInStatement | .labeledStatement | .withStatement => true
  | _ => false

/-- Kinds of nodes that can open a scope. -/
def Kind.opensScope (k : Kind) : Bool :=
  k = .program || k.isFunction || k.isClass || k = .catchClause || k.isBlock

theorem Kind.holdsStatements_of_listsStatements {k : Kind} (h : k.listsStatements = true) :
    k.holdsStatements = true := by
  cases k <;> first | rfl | cases h

theorem Kind.holdsStatements_of_hasSlot {k : Kind} {f : Option Field} (h : k.hasSlot f = true) :
    k.holdsStatements = true := by
  unfold Kind.hasSlot at h
  split at h <;> first | rfl | cases h

theorem Kind.not_opensScope_of_holdsDeclarators {k : Kind} (h : k.holdsDeclarators = true) :
    k.opensScope = false := by
  cases k <;> first | rfl | cases h

namespace Tree

variable {t t' : Tree} {q n m p s : NodeId} {gone : List NodeId}

theorem isScope_eq_false (hs : t.Shape) (hk : (t.kind n).opensScope = false) : t.isScope n = false := by
  simp only [Kind.opensScope, Bool.or_eq_false_iff, decide_eq_false_iff_not] at hk
  obtain ⟨⟨⟨⟨hprogram, hfunction⟩, hclass⟩, hcatch⟩, hblock⟩ := hk
  have hroot : n ≠ t.root := fun he => hprogram (he ▸ hs.root_program)
  have hstatement : t.kind n ≠ .statementBlock := fun he => by
    rw [he] at hblock
    cases hblock
  simp [isScope, scopeOpened?, opens?, hroot, hfunction, hclass, hcatch, hblock, hstatement]

/-- A node that opens no scope is in the scope of its parent. -/
theorem scopeNode_parent (ht : t.Consistent) (hn : t.Below t.root n) (hscope : t.isScope n = false)
    (hp : t.parent n = some p) : t.scopeNode n = t.scopeNode p := by
  rw [scopeNode_eq ht hn, hscope, if_neg Bool.false_ne_true, outerNode_child hp]

/-! ## Statements under an export -/

/-- If the node holds statements, it is a scope or the body of one, or a statement itself. -/
def NestsAt (t : Tree) (n : NodeId) : Prop :=
  (t.kind n).holdsStatements = true → t.isScope n = true ∨
    ∃ p ∈ t.parent n, t.isScope p = true ∨ (t.kind p).holdsStatements = true

instance (n : NodeId) : Decidable (t.NestsAt n) := by
  unfold NestsAt
  infer_instance

def StatementsNest (t : Tree) : Prop := ∀ n, t.Below t.root n → t.NestsAt n

theorem statementsNest_iff (ht : t.Consistent) : t.StatementsNest ↔ ∀ n ∈ t.walk, t.NestsAt n :=
  ⟨fun h n hn => h n ((mem_walk_iff ht).mp hn), fun h n hn => h n ((mem_walk_iff ht).mpr hn)⟩

/-- On the way from `n` up to the scope around it stands the export statement `s`. -/
structure ExportedUnder (t : Tree) (s n : NodeId) : Prop where
  kind : t.kind s = .exportStatement
  below : t.Below s n
  scope : t.Below (t.outerNode n) s

theorem exportedUnder_of_lineage (ht : t.Consistent) (hn : t.Below t.root n) (hk : t.kind s = .exportStatement)
    (hs : s ∈ t.lineage n) (hscope : t.outerNode n ∈ t.lineage s) : t.ExportedUnder s n := by
  have hb := (mem_lineage_iff ht hn).mp hs
  exact ⟨hk, hb, (mem_lineage_iff ht (hn.root_of_below ht hb)).mp hscope⟩

/-- From a node that holds statements up to its scope there are only such nodes and scopes. -/
theorem nests_upward (ht : t.Consistent) (hn : t.StatementsNest) (hm : t.Below t.root m)
    (hk : (t.kind m).holdsStatements = true ∨ t.isScope m = true) (hb : t.Below s m)
    (hscope : t.Below (t.scopeNode m) s) : t.isScope s = true ∨ (t.kind s).holdsStatements = true := by
  induction hm with
  | refl =>
    rw [scopeNode_root ht] at hscope
    exact .inl (Below.antisymm ht .refl hscope hb ▸ isScope_root)
  | @step p c hp hr ih =>
    have hc : t.Below t.root c := .step hp hr
    by_cases hcs : t.isScope c = true
    · rw [scopeNode_of_isScope ht hc hcs] at hscope
      exact .inl (Below.antisymm ht hc hscope hb ▸ hcs)
    · have hholds := hk.resolve_right hcs
      by_cases hne : c = s
      · exact .inr (hne ▸ hholds)
      · obtain ⟨p', hp', hbelow⟩ := hb.parent hne
        obtain rfl := Option.some.inj (hp.symm.trans hp')
        obtain ⟨p', hp', hkp⟩ := (hn c hc hholds).resolve_left hcs
        obtain rfl := Option.some.inj (hp.symm.trans hp')
        rw [scopeNode_parent ht hc (by simpa using hcs) hp] at hscope
        exact ih hkp.symm hbelow hscope

/-- What stands right under an export statement, up to nodes that open no scope, holds no statements. -/
theorem ExportedUnder.not_holdsStatements (ht : t.Consistent) (hs : t.Shape) (hn : t.StatementsNest)
    (hx : t.ExportedUnder s n) (hne : n ≠ s) (hroot : t.Below t.root n) (hp : t.parent n = some p) :
    (t.kind p).holdsStatements = false := by
  by_contra hholds
  obtain ⟨p', hp', hbelow⟩ := hx.below.parent hne
  obtain rfl := Option.some.inj (hp.symm.trans hp')
  have hscope := hx.scope
  rw [outerNode_child hp] at hscope
  have hk := nests_upward ht hn (hroot.root_of_below ht (.of_parent hp)) (.inl (by simpa using hholds)) hbelow hscope
  have hks : t.isScope s = false := isScope_eq_false hs (by rw [hx.kind]; rfl)
  rw [hks, hx.kind] at hk
  rcases hk with hk | hk <;> cases hk

/-- What stands under an export statement stands there with the parent, if that opens no scope. -/
theorem ExportedUnder.parent (ht : t.Consistent) (hx : t.ExportedUnder s n) (hne : n ≠ s) (hroot : t.Below t.root n)
    (hp : t.parent n = some p) (hscope : t.isScope p = false) : t.ExportedUnder s p := by
  obtain ⟨p', hp', hbelow⟩ := hx.below.parent hne
  obtain rfl := Option.some.inj (hp.symm.trans hp')
  have houter := hx.scope
  rw [outerNode_child hp, scopeNode_eq ht (hroot.root_of_below ht (.of_parent hp)), hscope,
    if_neg Bool.false_ne_true] at houter
  exact ⟨hx.kind, hbelow, houter⟩

theorem statementsNest_cut (ht : t.Consistent) (h : Cut t t' q n gone) (hn : t.StatementsNest) :
    t'.StatementsNest := by
  intro m hm hk
  obtain ⟨hst, hkm⟩ := h.stays_of_kind ht hm fun he => by
    rw [he] at hk
    cases hk
  rw [h.isScope_stays ht hst, h.parent_stays ht hst]
  refine (hn m hst.1 (hkm ▸ hk)).imp_right fun hp => ?_
  obtain ⟨p, hp, hkp⟩ := hp
  refine ⟨p, hp, ?_⟩
  rwa [h.isScope_stays ht (hst.parent ht hp), h.kind_eq p (ht.parent_lt hp)]

/-! ## Names of an exported declaration -/

/-- The export statement `s` exports the declaration that the declarator `p` is part of. -/
structure Exports (t : Tree) (s p : NodeId) : Prop where
  kind : t.kind s = .exportStatement
  declaration : ∃ d, t.parent p = some d ∧ t.child? s .declaration = some d ∧
    (t.kind d = .lexicalDeclaration ∨ t.kind d = .variableDeclaration)

/-- A scope around the export statement `s`, inside the one in which the `var` declares, has a name of its own like
that of the binding. -/
def Shadows (t : Tree) (s : NodeId) (b : Binding) : Prop :=
  b.keyword = "var" ∧ ∃ e ∈ t.declarations, t.text e.identifier = b.name ∧ t.Below e.target s ∧
    t.Below (t.hoistNode b.path) e.target ∧ e.target ≠ t.hoistNode b.path

/-- What was exported after a cut was so before. -/
theorem Exports.of_cut (ht : t.Consistent) (h : Pruning t t' q n gone) (hx : t'.Exports s p)
    (hst : Stays t gone p) : t.Exports s p ∧ Stays t gone s := by
  obtain ⟨hk, d, hd, hc, hkd⟩ := hx
  have hd : t.parent p = some d := (h.cut.parent_stays ht hst).symm.trans hd
  have hdst := hst.parent ht hd
  have hs : t.parent d = some s :=
    (h.cut.parent_stays ht hdst).symm.trans (parent_of_child? (h.cut.consistent ht) hc)
  have hk : t.kind s = .exportStatement := (h.cut.kind_eq s (ht.parent_lt hs)).symm.trans hk
  rw [(h.child?_of_not_site ht (by rw [hk]; rfl)).1] at hc
  rw [h.cut.kind_eq d (ht.parent_lt hd)] at hkd
  exact ⟨⟨hk, d, hd, hc, hkd⟩, hdst.parent ht hs⟩

theorem Shadows.of_cut (ht : t.Consistent) (hs : t.Framed) (h : Pruning t t' q n gone) (hq : t.Below t.root q)
    {b : Binding} (hx : t'.Shadows s b) (hst : Stays t gone b.path) (hss : Stays t gone s) : t.Shadows s b := by
  obtain ⟨hkeyword, e, he, htext, hbelow, hhoist, hne⟩ := hx
  rw [declarations_cut ht hs h hq] at he
  have he := (List.mem_filter.mp he).1
  rw [text_declared ht h.cut he] at htext
  rw [h.cut.hoistNode_stays ht hst] at hhoist hne
  have hbelow := h.cut.below_of_below ht (hss.lt_size ht) hbelow
  exact ⟨hkeyword, e, he, htext, hbelow,
    h.cut.below_of_below ht ((hss.1.root_of_below ht hbelow).lt_size ht) hhoist, hne⟩

/-! ## What an export refers to -/

/-- The scopes around a node lie one inside the other. -/
theorem pairwise_scopeChain (ht : t.Consistent) (hn : t.Below t.root n) :
    (t.scopeChain n).Pairwise fun a b => t.Below b a := by
  induction hn with
  | refl =>
    rw [scopeChain_root ht]
    exact List.pairwise_singleton ..
  | @step p c hp hr ih =>
    rw [scopeChain_child ht hp hr]
    split
    · exact List.pairwise_cons.mpr ⟨fun b hb => .step hp ((mem_scopeChain_iff ht hr).mp hb).1, ih⟩
    · exact ih

/-- A name stands for a declaration in a scope around it, unless a nearer scope declares the name too. -/
theorem resolve?_nearer (ht : t.Consistent) {d : Declaration NodeId} (hd : d ∈ t.bindings) (hn : t.Below t.root n)
    (hin : d.target ∈ t.scopeChain n) : ∃ e ∈ t.bindings, t.resolve? n (t.text d.identifier) = some e ∧
      (e = d ∨ t.text e.identifier = t.text d.identifier ∧ t.Below e.target n ∧ t.Below d.target e.target ∧
        e.target ≠ d.target) := by
  have hfirst : t.declared? d.target (t.text d.identifier) = some d :=
    of_decide_eq_true (List.mem_filter.mp hd).2
  have hsome : (t.resolve? n (t.text d.identifier)).isSome := by
    rw [resolve?, List.findSome?_isSome_iff]
    exact ⟨d.target, hin, by rw [hfirst]; rfl⟩
  obtain ⟨e, he⟩ := Option.isSome_iff_exists.mp hsome
  obtain ⟨hebind, hbelow, hname⟩ := binding_of_resolve? ht hn he
  refine ⟨e, hebind, he, or_iff_not_imp_left.mpr fun hne => ?_⟩
  obtain ⟨nearer, a, further, hchain, ha, hnone⟩ := List.findSome?_eq_some_iff.mp he
  obtain ⟨_, htarget, _⟩ := binding_of_declared? ha
  have hother : a ≠ d.target := fun h => by
    rw [h, hfirst] at ha
    exact hne (Option.some.inj ha).symm
  rw [htarget]
  refine ⟨hname, htarget ▸ hbelow, ?_, hother⟩
  have hpairs := pairwise_scopeChain ht hn
  rw [hchain] at hpairs hin
  rcases List.mem_append.mp hin with hin | hin
  · rw [hnone _ hin] at hfirst
    cases hfirst
  · rcases List.mem_cons.mp hin with hin | hin
    · exact absurd hin.symm hother
    · exact (List.pairwise_cons.mp (List.pairwise_append.mp hpairs).2.1).1 _ hin

/-- Where the names of an exported declarator are declared: around the export statement, unless they are hoisted. -/
theorem Exports.scopeNode (ht : t.Consistent) (hs : t.Shape) (hx : t.Exports s p) (hp : t.Below t.root p)
    (hk : t.kind p = .variableDeclarator) : t.Below t.root s ∧ t.scopeNode p = t.outerNode s := by
  obtain ⟨hks, d, hd, hc, hkd⟩ := hx
  have hdr := hp.root_of_below ht (.of_parent hd)
  have hsd := parent_of_child? ht hc
  have hsr := hdr.root_of_below ht (.of_parent hsd)
  have hscope : t.isScope s = false := isScope_eq_false hs (by rw [hks]; rfl)
  refine ⟨hsr, ?_⟩
  rw [scopeNode_parent ht hp (isScope_eq_false hs (by rw [hk]; rfl)) hd,
    scopeNode_parent ht hdr (isScope_eq_false hs (by rcases hkd with h | h <;> rw [h] <;> rfl)) hsd,
    scopeNode_eq ht hsr, hscope, if_neg Bool.false_ne_true]

/-- The export statement lists the names of the declarator. -/
theorem Exports.mem_exportsAt (ht : t.Consistent) (hs : t.Shape) (hx : t.Exports s p) (hp : t.Below t.root p)
    (hk : t.kind p = .variableDeclarator) {i : NodeId} (hi : i ∈ t.patternNames p .name) :
    i ∈ (t.visitOf s).exportsAt t := by
  obtain ⟨hks, d, hd, hc, hkd⟩ := hx
  have hnamed : (t.node p).named = true := by
    by_contra hn
    have hnil := hs.leaf p hp (.inr (by simpa using hn))
    simp [patternNames, child?, hnil] at hi
  have hmem : p ∈ t.namedChildren d := List.mem_filter.mpr ⟨(ht.mem_children d p).mpr hd, hnamed⟩
  have hnames : i ∈ t.declaredNames d := by
    have hin : i ∈ (t.namedChildren d).flatMap fun c =>
        if t.kind c = .variableDeclarator then t.patternNames c .name else [] :=
      List.mem_flatMap.mpr ⟨p, hmem, by rwa [if_pos hk]⟩
    unfold declaredNames
    rcases hkd with h | h <;> rw [h] <;> exact hin
  rw [Visit.exportsAt, if_pos (show t.kind (t.visitOf s).node = _ from hks)]
  have hdeclaration : t.child? (t.visitOf s).node .declaration = some d := hc
  rw [hdeclaration]
  exact hnames

/-- An export statement refers to what its declarators declare, unless the name is hoisted out of a scope that has
one like it. -/
theorem Exports.refers (ht : t.Consistent) (hs : t.Shape) {d : Declaration NodeId} (hd : d ∈ t.bindings)
    (hc : d.construct = .declarator) (hx : t.Exports s d.path) : (s, d.identifier) ∈ t.exported ∨
      d.keyword = "var" ∧ ∃ e ∈ t.declarations, t.text e.identifier = t.text d.identifier ∧ t.Below e.target s ∧
        t.Below (t.hoistNode d.path) e.target ∧ e.target ≠ t.hoistNode d.path := by
  obtain ⟨hk, hdm⟩ := declarator_of_construct ht (mem_declarations_of_binding hd) hc
  have hp := path_attached ht (mem_declarations_of_binding hd)
  obtain ⟨hsr, hscope⟩ := hx.scopeNode ht hs hp hk
  have houter := root_below_outerNode ht hsr
  have htarget : d.identifier ∈ t.patternNames d.path .name ∧
      (d.keyword = "var" ∧ d.target = t.hoistNode d.path ∨ d.target = t.outerNode s) := by
    rw [declarationsOf_declarator hk] at hdm
    obtain ⟨i, hi, he⟩ := List.mem_map.mp hdm
    rw [← he]
    refine ⟨hi, ?_⟩
    by_cases hvar : t.declarationKeyword (t.parent d.path) = "var"
    · exact .inl ⟨hvar, if_pos hvar⟩
    · exact .inr ((if_neg hvar).trans hscope)
  obtain ⟨hi, htarget⟩ := htarget
  have hin : d.target ∈ t.scopeChain (t.outerNode s) := by
    rcases htarget with ⟨_, htarget⟩ | htarget
    · rw [htarget, ← hscope, scopeChain_scopeNode ht hp]
      exact hoistNode_mem ht hp
    · rw [htarget]
      exact (mem_scopeChain_iff ht houter).mpr ⟨.refl, isScope_outerNode ht hsr⟩
  obtain ⟨e, he, hresolve, hnear⟩ := resolve?_nearer ht hd houter hin
  rcases hnear with rfl | ⟨hname, hbelow, hinside, hne⟩
  · exact .inl (mem_exported_iff.mpr ⟨s, (mem_walk_iff ht).mpr hsr, e.identifier,
      hx.mem_exportsAt ht hs hp hk hi, e, hresolve, rfl⟩)
  · rcases htarget with ⟨hvar, htarget⟩ | htarget
    · rw [htarget] at hinside hne
      exact .inr ⟨hvar, e, mem_declarations_of_binding he, hname, hbelow.trans (outerNode_below ht hsr), hinside, hne⟩
    · rw [htarget] at hinside hne
      exact absurd (Below.antisymm ht houter hinside hbelow).symm hne

end Tree

open DeadCode.Tree

variable {a : Analysis} {t t' : Tree} {q n : NodeId} {gone : List NodeId}

/-- The analysis counts the export statements of attached declarators, those left out that `t₀` shadows. -/
def Analysis.CountsExports (t₀ : Tree) (a : Analysis) (t : Tree) : Prop :=
  ∀ β < a.bindings.size, (a.binding β).construct = .declarator → t.Below t.root (a.binding β).path →
    ∀ s, t.Exports s (a.binding β).path → s ∈ (a.binding β).references ∨ t₀.Shadows s (a.binding β)

theorem countsExports_crawl (ht : t.Consistent) (hs : t.Shape) (a : Analysis) :
    (a.crawl t).CountsExports t t := by
  intro β hβ hc hroot s hx
  have hr := reflects_crawl ht a
  obtain ⟨d, hd, hid⟩ := hr.live β hβ hroot
  have hdesc := (hr.records.describes hd hβ hid).1
  rw [Shadows, hdesc.name, hdesc.keyword, hdesc.path]
  rw [hdesc.path] at hx
  refine (hx.refers ht hs hd (hdesc.construct ▸ hc)).imp_left fun hmem => ?_
  rw [hr.records.ledger.references β hβ]
  exact List.mem_map.mpr ⟨_, List.mem_filter.mpr ⟨exported_subset_references _ hmem, by simpa using hid⟩, rfl⟩

/-- An export statement counts as long as it is attached. -/
theorem Analysis.CountsExports.subtract {t₀ : Tree} (ht : t.Consistent) (h : Pruning t t' q n gone)
    (hq : t.Below t.root q) (hsited : Sited a t) (ha : a.CountsExports t₀ t) :
    (a.subtract t' n).CountsExports t₀ t' := by
  have hsame := sameBindings_subtract a t' n
  intro β hβ hc hroot s hx
  have hβ := hsame.size ▸ hβ
  obtain ⟨refs, he⟩ := hsame.binding β
  rw [he] at hc hroot hx
  have hst : Stays t gone (a.binding β).path := (stays_iff ht h.cut (hsited.path_lt β hβ)).mpr hroot
  obtain ⟨hx, hss⟩ := hx.of_cut ht h hst
  refine (ha β hβ hc hst.1 s hx).imp (fun hmem => ?_) fun hshadow => by rwa [he]
  refine mem_references_subtract (fun hw => ?_) hmem
  rw [h.cut.walkFrom_gone ht hq, mem_walkFrom_iff ht (.step h.cut.parent_mem hq)] at hw
  exact hss.2 n h.cut.node_mem hw

end DeadCode
