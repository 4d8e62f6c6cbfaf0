import DeadCode.Proofs.Names.Preservation
import DeadCode.Proofs.Names.Unreferenced

/-!
What a name means, told by crawls. If a tree `Keeps` the names of another, a crawl of either counts a node
towards the same bindings (`Tree.Keeps.counted`).
-/

namespace DeadCode

open DeadCode.Tree

/-- The bindings that a node counts towards. -/
def Analysis.countedFor (a : Analysis) (n : NodeId) : List BindingId := (a.resolved.get? n).getD []

/-- Two analyses have the same binding on record, its references apart. -/
structure SameBinding (a a' : Analysis) (b b' : BindingId) : Prop where
  identifier : (a'.binding b').identifier = (a.binding b).identifier
  name : (a'.binding b').name = (a.binding b).name
  keyword : (a'.binding b').keyword = (a.binding b).keyword
  path : (a'.binding b').path = (a.binding b).path
  construct : (a'.binding b').construct = (a.binding b).construct
  coDeclared : (a'.binding b').coDeclared = (a.binding b).coDeclared
  scope : (a'.scope (a'.binding b').scope).node = (a.scope (a.binding b).scope).node

/-- An analysis that reflects the tree looks a name up where it stands as the tree resolves it. -/
theorem Reflects.lookup? {a : Analysis} {t : Tree} {refs : List (NodeId × NodeId)} (hr : Reflects a t refs)
    (ht : t.Consistent) {n : NodeId} (hn : t.Below t.root n) (name : String) :
    (a.lookup? (a.enclosing t n) name).map a.identifierOf =
      (t.resolve? (t.scopeNode n) name).map Declaration.identifier := by
  have hall : ∀ m, t.Below t.root m → t.isScope m = true → m ∈ t.scopeNodes :=
    fun m hm hs => (mem_scopeNodes_iff ht).mpr ⟨hm, hs⟩
  rw [hr.records.lookup?_map ht (enclosed_scopeNodes ht) (hr.records.scopes.enclosing_eq ht hall hn)]
  simp only [resolve?, bindings, firstOf?_introducing]
  rfl

namespace Tree

variable {t t' : Tree} {n : NodeId}

theorem references_filter (hk : t.kind n ≠ .exportStatement) :
    t.references.filter (·.1 = n) = t.named.filter (·.1 = n) := by
  have hnone : t.exported.filter (·.1 = n) = [] := by
    refine List.filter_eq_nil_iff.mpr fun r hr he => ?_
    exact hk (of_decide_eq_true he ▸ kind_of_exported hr)
  rw [references, List.filter_append, List.filter_append, hnone, List.append_nil, named,
    List.filter_append]

/-- What a crawl counts is attached, and counts towards bindings of the tree. -/
theorem crawl_countedFor (ht : t.Consistent) (a : Analysis) {b : BindingId}
    (hb : b ∈ (a.crawl t).countedFor n) : t.Below t.root n ∧
      ∃ d ∈ t.bindings, d.identifier = (a.crawl t).identifierOf b ∧
        Describes (a.crawl t) t ((a.crawl t).binding b) d := by
  have hr := reflects_crawl ht a
  have hlt := hr.records.ledger.resolved_lt n b hb
  have hmem : (a.crawl t).identifierOf b ∈ (t.references.filter (·.1 = n)).map Prod.snd := by
    rw [← hr.records.ledger.resolved n]
    exact List.mem_map_of_mem hb
  obtain ⟨r, hr', he⟩ := List.mem_map.mp hmem
  obtain ⟨hr', hn⟩ := List.mem_filter.mp hr'
  obtain ⟨hroot, d, hd, hid, _⟩ := reference_inside ht hr'
  have hn : r.1 = n := by simpa using hn
  exact ⟨hn ▸ hroot, d, hd, hid.trans he, (hr.records.describes hd hlt (hid.trans he)).1⟩

/-- A crawl looks a name up where it stands as the tree resolves it. -/
theorem crawl_lookup? (ht : t.Consistent) (a : Analysis) (hn : t.Below t.root n) (name : String) :
    ((a.crawl t).lookup? ((a.crawl t).enclosing t n) name).map (a.crawl t).identifierOf =
      (t.resolve? (t.scopeNode n) name).map Declaration.identifier :=
  (reflects_crawl ht a).lookup? ht hn name

/-- Crawls before and after count a node towards the same bindings. -/
theorem Keeps.counted (ht : t.Consistent) (ht' : t'.Consistent) (h : Keeps t t') (a a' : Analysis)
    (hn : n < t.size) (hroot : t'.Below t'.root n) (hk : t.kind n ≠ .exportStatement) :
    List.Forall₂ (SameBinding (a.crawl t) (a'.crawl t')) ((a.crawl t).countedFor n)
      ((a'.crawl t').countedFor n) := by
  have hmap : ((a.crawl t).countedFor n).map (a.crawl t).identifierOf =
      ((a'.crawl t').countedFor n).map (a'.crawl t').identifierOf := by
    have h1 := (reflects_crawl ht a).records.ledger.resolved n
    have h2 := (reflects_crawl ht' a').records.ledger.resolved n
    rw [references_filter hk] at h1
    rw [references_filter (by rw [h.kind n hn]; exact hk), h.named n hn hroot] at h2
    exact h1.trans h2.symm
  refine Lists.forall₂_of_map_eq hmap fun b hb b' hb' he => ?_
  obtain ⟨_, d, hd, hid, hdesc⟩ := crawl_countedFor ht a hb
  obtain ⟨_, d', hd', hid', hdesc'⟩ := crawl_countedFor ht' a' hb'
  have hdecl := mem_declarations_of_binding hd
  obtain rfl : d' = d := declaration_unique ht (mem_declarations_of_binding (h.bindings d' hd')) hdecl
    (hid'.trans (he.symm.trans hid.symm))
  refine ⟨hdesc'.identifier.trans hdesc.identifier.symm, ?_, hdesc'.keyword.trans hdesc.keyword.symm,
    hdesc'.path.trans hdesc.path.symm, hdesc'.construct.trans hdesc.construct.symm,
    hdesc'.coDeclared.trans hdesc.coDeclared.symm, hdesc'.scope.trans hdesc.scope.symm⟩
  rw [hdesc'.name, hdesc.name, h.text _ ((declared_attached ht hdecl).lt_size ht)]

end Tree
end DeadCode
