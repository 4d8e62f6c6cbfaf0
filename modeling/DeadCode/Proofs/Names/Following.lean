import DeadCode.Proofs.Names.Closed
import DeadCode.Proofs.Names.Subtraction

/-!
An analysis that follows the tree. If it reflects a tree, then after a closed cut, with the subtree that
left subtracted, it reflects what is left (`Reflects.subtract`): subtracting agrees with a new crawl on
scopes and bindings, and on references up to those of export statements that were cut into.
-/

namespace DeadCode

open DeadCode.Tree

variable {a : Analysis} {t t' : Tree} {q n m : NodeId} {gone : List NodeId}
  {refs : List (NodeId × NodeId)}

/-! ## What stays in the records -/

/-- `a'` describes the same bindings as `a`, with no more references. -/
structure SameBindings (a a' : Analysis) : Prop where
  size : a'.bindings.size = a.bindings.size
  binding : ∀ b, ∃ references, a'.binding b = { a.binding b with references }
  unreferenced : ∀ b, (a.binding b).references = [] → (a'.binding b).references = []

namespace SameBindings

theorem of_eq {a' : Analysis} (h : a'.bindings = a.bindings) : SameBindings a a' :=
  ⟨by rw [h], fun b => ⟨(a.binding b).references, by simp only [Analysis.binding, h]⟩,
    fun b hb => by simpa only [Analysis.binding, h] using hb⟩

theorem trans {a' a'' : Analysis} (h : SameBindings a a') (h' : SameBindings a' a'') :
    SameBindings a a'' := by
  refine ⟨h'.size.trans h.size, fun b => ?_, fun b hb => h'.unreferenced b (h.unreferenced b hb)⟩
  obtain ⟨_, hb⟩ := h.binding b
  obtain ⟨r, hb'⟩ := h'.binding b
  exact ⟨r, by rw [hb', hb]⟩

/-- A binding without references stays what it is. -/
theorem binding_eq {a' : Analysis} (h : SameBindings a a') {b : BindingId} (hb : (a.binding b).references = []) :
    a'.binding b = a.binding b := by
  obtain ⟨refs, he⟩ := h.binding b
  have hnil := h.unreferenced b hb
  rw [he] at hnil
  have hnil : refs = [] := hnil
  rw [he, hnil, ← hb]

theorem identifierOf {a' : Analysis} (h : SameBindings a a') (b : BindingId) :
    a'.identifierOf b = a.identifierOf b := by
  obtain ⟨_, hb⟩ := h.binding b
  rw [Analysis.identifierOf, hb]
  rfl

end SameBindings

/-- What every erasure of a node keeps is kept of the references of a binding when the node is dropped. -/
theorem references_dropReferences_of {P : List NodeId → Prop} (hP : ∀ l, P l → P (l.erase n)) {b : BindingId}
    (hb : P (a.binding b).references) : P ((a.dropReferences n).binding b).references := by
  have unreference : ∀ (ids : List BindingId) (a : Analysis), P (a.binding b).references →
      P ((ids.foldl (Analysis.unreference n) a).binding b).references := by
    intro ids
    induction ids with
    | nil => exact fun _ hb => hb
    | cons x ids ih =>
      intro a hb
      refine ih _ ?_
      rw [references_unreference]
      split
      · exact hP _ hb
      · exact hb
  exact unreference _ _ hb

theorem sameBindings_dropNode (a : Analysis) (n : NodeId) : SameBindings a (a.dropNode n) := by
  have h := recounted_dropReferences a n
  have h1 : SameBindings a (a.dropReferences n) :=
    ⟨h.bindings_size, h.binding, fun _ => references_dropReferences_of (P := (· = [])) fun l hl => by rw [hl]; rfl⟩
  exact h1.trans (.of_eq (bindings_dropNode a n))

theorem sameBindings_subtract (a : Analysis) (t : Tree) (n : NodeId) : SameBindings a (a.subtract t n) :=
  subtract_induction (fun m _ a' h => h.trans (sameBindings_dropNode a' m)) (fun _ h => h.trans (.of_eq rfl))
    (.of_eq rfl)

/-- A node that was not dropped still counts. -/
theorem mem_references_subtract {b : BindingId} (hm : m ∉ t.walkFrom n) (hb : m ∈ (a.binding b).references) :
    m ∈ ((a.subtract t n).binding b).references := by
  refine subtract_induction (P := fun a => m ∈ (a.binding b).references) (fun x hx a ha => ?_) (fun _ h => h) hb
  have hne : m ≠ x := fun he => hm (he ▸ hx)
  rw [Analysis.binding, bindings_dropNode]
  exact references_dropReferences_of (P := (m ∈ ·)) (fun _ hl => (List.mem_erase_of_ne hne).mpr hl) ha

/-- Telling an analysis twice of one cut does no harm. -/
theorem subtract_subtract (a : Analysis) (t : Tree) (n : NodeId) :
    (a.subtract t n).subtract t n = a.subtract t n := by
  by_cases h : a.version.map (· + 1) = some t.version
  · have hv : (a.subtract t n).version = some t.version := by rw [Analysis.subtract, if_pos h]
    rw [Analysis.subtract, hv, if_neg (by simp)]
  · have hs : a.subtract t n = a := by rw [Analysis.subtract, if_neg h]
    rw [hs, hs]

theorem version_subtract (h : Cut t t' q n gone) (hv : a.version = some t.version) :
    (a.subtract t' n).version = some t'.version := by
  rw [Analysis.subtract, hv, if_pos (by simp [h.version])]

theorem version_subtract_none (hv : a.version = none) : a.subtract t' n = a := by
  rw [Analysis.subtract, hv, if_neg (by simp)]

/-! ## The subtree and what leaves with it -/

section Offcut

variable (ht : t.Consistent) (hs : t.Framed) (h : Pruning t t' q n gone) (hq : t.Below t.root q)

include ht hs h hq

/-- Beside the subtree of `n` only a comma leaves. -/
theorem Tree.mem_offcut (hm : m ∈ t.offcut gone) : m ∈ t.walkFrom n ∨ t.kind m = .comma := by
  obtain ⟨g, hg, hb⟩ := (h.cut.mem_offcut_iff ht hq).mp hm
  have hgr : t.Below t.root g := .step (h.cut.parent_of_gone g hg) hq
  rcases h.gone_comma g hg with rfl | hk
  · exact .inl ((mem_walkFrom_iff ht hgr).mpr hb)
  · have hmg := hb.eq_of_leaf ht (hs.leaf g hgr (.inl (by rw [hk]; rfl)))
    exact .inr (hmg ▸ hk)

theorem Tree.offcut_scope (hm : m ∈ t.scopeNodes) : m ∈ t.offcut gone ↔ m ∈ t.walkFrom n := by
  refine ⟨fun hoff => ?_, fun hw => List.mem_flatMap.mpr ⟨n, h.cut.node_mem, hw⟩⟩
  refine (mem_offcut ht hs h hq hoff).resolve_right fun hk => ?_
  have hscope := ((mem_scopeNodes_iff ht).mp hm).2
  have hroot : m ≠ t.root := fun he => by
    rw [he, hs.root_program] at hk
    cases hk
  simp [isScope, scopeOpened?, opens?, hroot, hk, Kind.isFunction, Kind.isClass, Kind.isBlock] at hscope

/-- A declared identifier leaves with its declarer, or it is a part of an import that stays. -/
theorem Tree.declared_offcut {d : Declaration NodeId} (hm : t.Below t.root m) (hd : d ∈ t.declarationsOf m)
    (hoff : d.identifier ∈ t.offcut gone) :
    t.Below n m ∨ Stays t gone m ∧ t.kind m = .importStatement ∧ (t.kind q).listsImports = true := by
  by_cases hmo : m ∈ t.offcut gone
  · refine .inl ?_
    rcases mem_offcut ht hs h hq hmo with hw | hk
    · exact (mem_walkFrom_iff ht (.step h.cut.parent_mem hq)).mp hw
    · have := Visit.declares_of_mem hd
      rw [visitOf, hk] at this
      cases this
  · have hst : Stays t gone m := (stays_iff_mem ht h.cut hq).mpr ⟨(mem_walk_iff ht).mpr hm, hmo⟩
    by_cases hk : t.kind m = .importStatement
    · refine .inr ⟨hst, hk, ?_⟩
      obtain ⟨g, hg, hb⟩ := (h.cut.mem_offcut_iff ht hq).mp hoff
      have hpg := h.cut.parent_of_gone g hg
      cases (carried_of_mem_declarationsOf ht hd).of_below hb (hst.2 g hg) with
      | child hp =>
        obtain rfl := Option.some.inj (hpg.symm.trans hp)
        rw [hk]
        rfl
      | step hp hc _ =>
        obtain rfl := Option.some.inj (hpg.symm.trans hp)
        exact Kind.listsImports_of_carries hc h.site
    · exact absurd hoff ((stays_iff_mem ht h.cut hq).mp (stays_of_declared ht hs h hst hk hd)).2

theorem Tree.offcut_declared {d : Declaration NodeId} (hd : d ∈ t.declarations) :
    d.identifier ∈ t.offcut gone ↔ d.identifier ∈ t.walkFrom n := by
  refine ⟨fun hoff => ?_, fun hw => List.mem_flatMap.mpr ⟨n, h.cut.node_mem, hw⟩⟩
  obtain ⟨m, hm, hd⟩ := mem_declarations_iff.mp hd
  refine (mem_offcut ht hs h hq hoff).elim id fun hk => ?_
  rcases declared_offcut ht hs h hq ((mem_walk_iff ht).mp hm) hd hoff with hb | ⟨_, himp, _⟩
  · exact (mem_walkFrom_iff ht (.step h.cut.parent_mem hq)).mpr (hb.trans (declarer_below ht hd))
  · rw [Visit.identifier_of_import ht himp hd] at hk
    cases hk

/-- A construct that stays keeps its identifier. -/
theorem Tree.path_stays {d : Declaration NodeId} (hd : d ∈ t.declarations) (hp : Stays t gone d.path) :
    d.identifier ∉ t.offcut gone := by
  obtain ⟨m, hm, hd⟩ := mem_declarations_iff.mp hd
  have hm := (mem_walk_iff ht).mp hm
  refine ((stays_iff_mem ht h.cut hq).mp ?_).2
  by_cases hk : t.kind m = .importStatement
  · rcases Visit.imports_of_import ht hk hd with
      ⟨_, hks, he, _, _, _, _, _⟩ | ⟨_, hpath, _, _, _⟩ | ⟨_, hpar, hkp, _⟩ | ⟨_, hpar, hkp, _⟩
    · have hpar := (Visit.mem_ofSpecifier ht (s := d.path) (by rw [he]; exact List.mem_singleton_self d)).2.1
      exact hp.child_of_ne h.cut hpar (h.ne_of_not_site (by rw [hks]; rfl))
    · exact hpath ▸ hp
    · exact hp.child_of_ne h.cut hpar (h.ne_of_not_site (by rw [hkp]; rfl))
    · exact hp.child_of_ne h.cut hpar (h.ne_of_not_site (by rw [hkp]; rfl))
  · rcases Visit.path_of_mem ht hd with ⟨_, hpath⟩ | ⟨hk', _⟩
    · rw [hpath] at hp
      exact stays_of_declared ht hs h hp hk hd
    · exact absurd hk' hk

end Offcut

/-! ## Taking the records over -/

theorem Scopes.cut (ht : t.Consistent) (h : Cut t t' q n gone) {ns : List NodeId} (hr : Scopes a t ns)
    (hns : ∀ m ∈ ns, Stays t gone m) : Scopes a t' ns where
  nodup := hr.nodup
  attached m hm := by
    have hst := hns m hm
    rw [h.isScope_stays ht hst]
    exact ⟨(stays_iff ht h (hst.lt_size ht)).mp hst, (hr.attached m hm).2⟩
  mem_iff := hr.mem_iff
  lt := hr.lt
  node := hr.node
  unique := hr.unique
  kind hs := by rw [hr.kind hs, h.scopeKind_stays ht (hns _ (hr.mem_of_some hs))]
  root := by rw [h.root, hr.root]
  parent_root := hr.parent_root
  parent hs hne := by
    rw [h.outerNode_stays ht (hns _ (hr.mem_of_some hs))]
    exact hr.parent hs (h.root ▸ hne)
  children hs := by
    rw [hr.children hs, h.root]
    exact List.filter_congr fun m hm => by rw [h.outerNode_stays ht (hns m hm)]
  child := hr.child

theorem Records.cut (ht : t.Consistent) (h : Cut t t' q n gone) {ns : List NodeId}
    {bs : List (Declaration NodeId)} (hr : Records a t ns bs refs) (hns : ∀ m ∈ ns, Stays t gone m)
    (hbs : ∀ d ∈ bs, d.identifier < t.size) : Records a t' ns bs refs where
  scopes := hr.scopes.cut ht h hns
  ledger := hr.ledger
  distinct d hd e he := by
    rw [h.text_eq _ (hbs d hd), h.text_eq _ (hbs e he)]
    exact hr.distinct d hd e he
  names hs := by
    rw [hr.names hs]
    exact List.map_congr_left fun d hd => by rw [h.text_eq _ (hbs d (List.mem_filter.mp hd).1)]
  entry := hr.entry
  declared := hr.declared
  record d hd := by
    obtain ⟨b, hb, hdesc⟩ := hr.record d hd
    exact ⟨b, hb, { hdesc with name := hdesc.name.trans (h.text_eq _ (hbs d hd)).symm }⟩

/-- The nodes dropped are those below the node that left. -/
theorem subtract_eq (ht : t.Consistent) (h : Cut t t' q n gone) (hq : t.Below t.root q)
    (hv : a.version = some t.version) : a.subtract t' n =
      { (t.walkFrom n).foldl Analysis.dropNode a with version := some t'.version } := by
  rw [Analysis.subtract, hv, if_pos (by simp [h.version]), h.walkFrom_gone ht hq]

/-- Subtracting what left keeps the reflection of the tree, if the cut is closed. -/
theorem Reflects.subtract (ht : t.Consistent) (hs : t.Framed) (h : Pruning t t' q n gone)
    (hq : t.Below t.root q) (hc : Closed t.redeclared (t.offcut gone)) (hr : Reflects a t refs)
    (hv : a.version = some t.version) :
    Reflects (a.subtract t' n) t' (refs.filter (·.1 ∉ t.walkFrom n)) := by
  have hn : t.Below t.root n := .step h.cut.parent_mem hq
  have hroot : t.root ∉ t.walkFrom n := fun hw =>
    (stays_root ht h.cut).2 n h.cut.node_mem ((mem_walkFrom_iff ht hn).mp hw)
  have hsame := sameBindings_subtract a t' n
  have hdrop := records_dropNodes (t.walkFrom n) hr.records hroot
  -- the nodes dropped hold the scopes and the bindings that left
  have hscopes : t.scopeNodes.filter (· ∉ t.walkFrom n) = t'.scopeNodes := by
    rw [scopeNodes_cut ht h hq]
    exact List.filter_congr fun m hm => decide_eq_decide.mpr (not_congr (offcut_scope ht hs h hq hm).symm)
  have hbindings : t.bindings.filter (·.identifier ∉ t.walkFrom n) = t'.bindings := by
    rw [bindings_cut ht hs h hq hc]
    exact List.filter_congr fun d hd => decide_eq_decide.mpr
      (not_congr (offcut_declared ht hs h hq (mem_declarations_of_binding hd)).symm)
  have hrec : Records (a.subtract t' n) t' t'.scopeNodes t'.bindings (refs.filter (·.1 ∉ t.walkFrom n)) := by
    rw [subtract_eq ht h.cut hq hv, ← hscopes, ← hbindings]
    refine (hdrop.stamp (some t'.version) _).cut ht h.cut (fun m hm => ?_) fun d hd => ?_
    · obtain ⟨hm, hw⟩ := List.mem_filter.mp hm
      refine (stays_iff_mem ht h.cut hq).mpr ⟨(List.mem_filter.mp hm).1, ?_⟩
      rw [offcut_scope ht hs h hq hm]
      simpa using hw
    · exact (declared_attached ht (mem_declarations_of_binding (List.mem_filter.mp hd).1)).lt_size ht
  refine ⟨hrec, fun b hb => ?_, fun b hb hp => ?_⟩
  · obtain ⟨_, hbb⟩ := hsame.binding b
    rw [hbb]
    exact lt_of_lt_of_le (hr.path_lt b (hsame.size ▸ hb)) h.cut.size_le
  · obtain ⟨_, hbb⟩ := hsame.binding b
    rw [hbb] at hp
    have hb := hsame.size ▸ hb
    have hst : Stays t gone (a.binding b).path := (stays_iff ht h.cut (hr.path_lt b hb)).mpr hp
    obtain ⟨d, hd, hid⟩ := hr.live b hb hst.1
    refine ⟨d, ?_, hid.trans (hsame.identifierOf b).symm⟩
    rw [bindings_cut ht hs h hq hc]
    have hpath := (hr.records.describes hd hb hid).1.path
    exact List.mem_filter.mpr ⟨hd, by
      simpa using path_stays ht hs h hq (mem_declarations_of_binding hd) (hpath ▸ hst)⟩

end DeadCode
