import DeadCode.Proofs.Names.Preservation
import DeadCode.Proofs.Names.Unreferenced

/-!
Analyses that are up to date. A `Current` analysis misses no reference in the tree; it may still count
some that export statements no longer make. Closed cuts keep it so (`Current.subtract`), and a binding
without references in it has none in a new crawl (`Current.free`).

References by name and those of exports are kept apart: the latter need `ExportsDeclarations`, and whether
they count is the parameter `X`.
-/

namespace DeadCode

open DeadCode.Tree

structure Current (X : Prop) (a : Analysis) (t : Tree) : Prop where
  version : a.version = some t.version
  covered : ∃ refs, Reflects a t refs ∧ (∀ r ∈ t.named, r ∈ refs) ∧ (X → ∀ r ∈ t.exported, r ∈ refs)

/-- Whatever refers to a node of `off` is in `off`. -/
def Tree.Clean (X : Prop) (t : Tree) (off : List NodeId) : Prop :=
  Closed t.named off ∧ (X → Closed t.exported off)

variable {X : Prop} {a : Analysis} {t t' : Tree} {q n : NodeId} {gone : List NodeId}

theorem current_crawl (ht : t.Consistent) (a : Analysis) : Current X (a.crawl t) t :=
  ⟨rfl, t.references, reflects_crawl ht a, named_subset_references, fun _ => exported_subset_references⟩

theorem Current.subtract (ht : t.Consistent) (hs : t.Shape) (h : Pruning t t' q n gone)
    (hq : t.Below t.root q) (he : X → t.ExportsDeclarations) (hc : t.Clean X (t.offcut gone))
    (hcur : Current X a t) : Current X (a.subtract t' n) t' := by
  obtain ⟨refs, hr, hnamed, hexported⟩ := hcur.covered
  have hwalk : ∀ {m}, m ∉ t.offcut gone → m ∉ t.walkFrom n := fun hoff hw =>
    hoff (List.mem_flatMap.mpr ⟨n, h.cut.node_mem, hw⟩)
  have hred : Closed t.redeclared (t.offcut gone) := hc.1.mono redeclared_subset_named
  refine ⟨version_subtract h.cut hcur.version, _, hr.subtract ht hs.toFramed h hq hred hcur.version, ?_, ?_⟩
  · intro r hr'
    rw [named_cut ht hs.toFramed h hq hc.1] at hr'
    obtain ⟨hr', hoff⟩ := List.mem_filter.mp hr'
    exact List.mem_filter.mpr ⟨hnamed r hr', by simpa using hwalk (by simpa using hoff)⟩
  · intro hx r hr'
    obtain ⟨hr', hoff⟩ := exported_cut ht hs.toFramed h hq (he hx) hred (hc.2 hx) hr'
    exact List.mem_filter.mpr ⟨hexported hx r hr', by simpa using hwalk hoff⟩

/-! ## Bindings without references -/

/-- Nothing refers to the declaration. -/
def Tree.Unused (X : Prop) (t : Tree) (d : Declaration NodeId) : Prop :=
  Free t.named d ∧ (X → Free t.exported d)

theorem Current.unused (hcur : Current X a t) {b : BindingId} (hb : b < a.bindings.size)
    {d : Declaration NodeId} (hid : d.identifier = a.identifierOf b)
    (hrefs : (a.binding b).references = []) : t.Unused X d := by
  obtain ⟨refs, hr, hnamed, hexported⟩ := hcur.covered
  have hnone : Free refs d := fun r hr' he => by
    have hmem : r.1 ∈ (refs.filter (·.2 = a.identifierOf b)).map Prod.fst :=
      List.mem_map_of_mem (List.mem_filter.mpr ⟨hr', by simpa using he.trans hid⟩)
    rw [← hr.records.ledger.references b hb, hrefs] at hmem
    exact List.not_mem_nil hmem
  exact ⟨fun r hr' => hnone r (hnamed r hr'), fun hx r hr' => hnone r (hexported hx r hr')⟩

/-- The declaration of a binding whose construct is attached. -/
theorem Current.declaration (hcur : Current X a t) {b : BindingId} (hb : b < a.bindings.size)
    (hroot : t.Below t.root (a.binding b).path) :
    ∃ d ∈ t.bindings, d.identifier = a.identifierOf b ∧ Describes a t (a.binding b) d := by
  obtain ⟨refs, hr, _, _⟩ := hcur.covered
  obtain ⟨d, hd, hid⟩ := hr.live b hb hroot
  exact ⟨d, hd, hid, (hr.records.describes hd hb hid).1⟩

theorem target_mem_scopeNodes (ht : t.Consistent) {d : Declaration NodeId} (hd : d ∈ t.bindings) :
    d.target ∈ t.scopeNodes := by
  obtain ⟨m, hm, hdm⟩ := mem_declarations_iff.mp (mem_declarations_of_binding hd)
  have hm := (mem_walk_iff ht).mp hm
  refine (mem_scopeNodes_iff ht).mpr ⟨hm.root_of_below ht (target_above ht hm hdm), ?_⟩
  rcases Visit.target_of_mem ht hdm with he | he | he
  · exact he ▸ isScope_outerNode ht hm
  · exact he ▸ isScope_scopeNode ht hm
  · rw [he]
    exact ((mem_scopeChain_iff ht hm).mp (hoistNode_mem ht hm)).2

/-- A declarator of which no name is referenced. `hfree` is what the tables of the analysis tell of it. -/
theorem Current.declarator_unused (ht : t.Consistent) (hcur : Current X a t) {b : BindingId}
    (hb : b < a.bindings.size) (hroot : t.Below t.root (a.binding b).path)
    (hc : (a.binding b).construct = .declarator)
    (hfree : ∀ name ∈ (a.binding b).coDeclared, ∀ c, a.own? (a.binding b).scope name = some c →
      (a.binding c).path = (a.binding b).path → (a.binding c).references = []) :
    ∀ e ∈ t.declarationsOf (a.binding b).path, e ∈ t.bindings → t.Unused X e := by
  obtain ⟨d, hd, hid, hdesc⟩ := hcur.declaration hb hroot
  obtain ⟨refs, hr, _, _⟩ := hcur.covered
  obtain ⟨hk, hdm⟩ := declarator_of_construct ht (mem_declarations_of_binding hd) (hdesc.construct ▸ hc)
  rw [hdesc.path, hdesc.coDeclared] at *
  intro e he hebind
  obtain ⟨htarget, hpath, hname⟩ := Visit.declarator_of_mem (v := t.visitOf d.path) hk hdm he
  obtain ⟨c, hc, hedesc⟩ := hr.records.record e hebind
  obtain ⟨hclt, hcid⟩ := hr.records.declared hc
  obtain ⟨hown, _⟩ := hr.records.own?_of_mem hebind (target_mem_scopeNodes ht hebind) hc
  have hscope : (a.binding c).scope = (a.binding b).scope :=
    hr.records.scopes.unique _ hedesc.scope_lt _ hdesc.scope_lt
      (by rw [hedesc.scope, hdesc.scope, htarget])
  rw [hscope, hedesc.name] at hown
  exact hcur.unused hclt hcid.symm (hfree _ hname c hown (hedesc.path.trans hpath))

end DeadCode
