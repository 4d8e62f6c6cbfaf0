import DeadCode.Proofs.Names.Checks
import DeadCode.Proofs.Names.Meaning

/-!
Where a node is listed. A crawl lists a use with the binding that its name stands for, a repeated
declaration with the first one of its name and an export statement with what its declaration introduces;
nothing else is listed. Main statement: `occurrences_crawl`, for every consistent tree in which the
identifiers that declare are leaves.
-/

namespace DeadCode

open DeadCode.Tree

/-- The bindings that hold a node among their references, each as often as it does. -/
def Analysis.listings (a : Analysis) (n : NodeId) : List BindingId :=
  (List.range a.bindings.size).flatMap fun b => List.replicate ((a.binding b).references.count n) b

/-- The lists of references of an analysis are those of the name resolution of a tree. -/
structure Occurrences (c : Analysis) (t : Tree) : Prop where
  /-- A node belongs to the scope of the innermost node at or above it that opens one. -/
  scope : ∀ n, t.Below t.root n → (c.scope (c.enclosing t n)).node = t.scopeNode n
  binding : ∀ b < c.bindings.size, ∃ d ∈ t.bindings, Describes c t (c.binding b) d
  /-- A look-up finds the first declaration of a name in the innermost scope that declares it. -/
  lookup : ∀ n, t.Below t.root n → ∀ name, (c.lookup? (c.enclosing t n) name).map c.identifierOf =
    (t.resolve? (t.scopeNode n) name).map Declaration.identifier
  use : ∀ n, t.Below t.root n → (t.kind n).isReference = true → n ∉ t.declaring → t.refers n = true →
    c.listings n = (c.lookup? (c.enclosing t n) (t.text n)).toList
  first : ∀ d ∈ t.declarations, t.declared? d.target (t.text d.identifier) = some d →
    (∃! b, b < c.bindings.size ∧ c.identifierOf b = d.identifier) ∧ c.listings d.identifier = []
  later : ∀ d ∈ t.declarations, ∀ e, t.declared? d.target (t.text d.identifier) = some e → e ≠ d →
    (∀ b < c.bindings.size, c.identifierOf b ≠ d.identifier) ∧
      ∃ b < c.bindings.size, Describes c t (c.binding b) e ∧ c.listings d.identifier = [b]
  exported : ∀ n, t.Below t.root n → t.kind n = .exportStatement → n ∉ t.declaring →
    (c.listings n).Perm (((t.visitOf n).exportsAt t).filterMap fun i =>
      c.lookup? (c.enclosing t n) (t.text i))
  /-- An identifier that declares introduces nothing for an export. -/
  silent : ∀ n ∈ t.declaring, (t.visitOf n).exportsAt t = []
  only : ∀ n, c.listings n ≠ [] → t.Below t.root n ∧
    (n ∈ t.declaring ∨ t.kind n = .exportStatement ∨ (t.kind n).isReference = true ∧ t.refers n = true)
  above : ∀ b < c.bindings.size, ∀ n ∈ (c.binding b).references,
    t.Below (c.scope (c.binding b).scope).node n

/-! ## Listings -/

section Listings

variable {a : Analysis} {refs : List (NodeId × NodeId)} {n : NodeId} {b : BindingId}

theorem count_listings (a : Analysis) (n : NodeId) (b : BindingId) :
    (a.listings n).count b = if b < a.bindings.size then (a.binding b).references.count n else 0 := by
  have hcount : ∀ l : List BindingId, l.Nodup → (l.flatMap fun b =>
      List.replicate ((a.binding b).references.count n) b).count b =
        if b ∈ l then (a.binding b).references.count n else 0 := by
    intro l
    induction l with
    | nil => exact fun _ => rfl
    | cons c l ih =>
      intro hnd
      obtain ⟨hc, hnd⟩ := List.nodup_cons.mp hnd
      rw [List.flatMap_cons, List.count_append, ih hnd, List.count_replicate]
      by_cases hbc : c = b
      · subst hbc
        simp [hc]
      · have hcb : b ≠ c := fun h => hbc h.symm
        simp [hbc, hcb]
  rw [Analysis.listings, hcount _ List.nodup_range]
  simp only [List.mem_range]

theorem mem_listings_iff : b ∈ a.listings n ↔ b < a.bindings.size ∧ n ∈ (a.binding b).references := by
  rw [← List.count_pos_iff, count_listings]
  split
  · rename_i hb
    rw [List.count_pos_iff]
    exact ⟨fun h => ⟨hb, h⟩, fun h => h.2⟩
  · rename_i hb
    exact ⟨fun h => absurd h (Nat.lt_irrefl 0), fun h => absurd h.1 hb⟩

/-- The two ways to count agree: a binding lists a node as often as the node counts towards it. -/
theorem Ledger.listings (h : Ledger a refs) (n : NodeId) : (a.listings n).Perm (a.countedFor n) := by
  rw [List.perm_iff_count]
  intro b
  rw [count_listings]
  split
  · rename_i hb
    exact (h.count_resolved n hb).symm
  · rename_i hb
    exact (List.count_eq_zero.mpr fun hc => hb (h.resolved_lt n b hc)).symm

/-- A node is listed by the bindings whose identifiers it refers to. -/
theorem Ledger.listings_perm (h : Ledger a refs) {l : List BindingId} (hl : ∀ c ∈ l, c < a.bindings.size)
    (hmap : l.map a.identifierOf = (refs.filter (·.1 = n)).map Prod.snd) : (a.listings n).Perm l := by
  have heq : a.countedFor n = l := List.forall₂_eq_eq_eq ▸
    Lists.forall₂_of_map_eq (R := Eq) ((h.resolved n).trans hmap.symm) fun b hb c hc he =>
      h.injective b (h.resolved_lt n b hb) c (hl c hc) he
  exact heq ▸ h.listings n

theorem Ledger.listings_eq_toList (h : Ledger a refs) {o : Option BindingId} (ho : ∀ b ∈ o, b < a.bindings.size)
    (hmap : (o.map a.identifierOf).toList = (refs.filter (·.1 = n)).map Prod.snd) :
    a.listings n = o.toList := by
  have hperm := h.listings_perm (n := n) (l := o.toList) (fun c hc => ho c (Option.mem_toList.mp hc))
    (by rw [← hmap, Option.toList_map])
  cases o with
  | none => exact hperm.eq_nil
  | some b => exact List.perm_singleton.mp hperm

end Listings

/-! ## References by node -/

namespace Tree

variable {t : Tree} {n : NodeId} {d e : Declaration NodeId}

theorem redeclared_filter_of_mem (ht : t.Consistent) (hd : d ∈ t.declarations)
    (he : t.declared? d.target (t.text d.identifier) = some e) :
    t.redeclared.filter (·.1 = d.identifier) = if e = d then [] else [(d.identifier, e.identifier)] := by
  rw [redeclared, repeating, List.filterMap_eq_flatMap_toList,
    Lists.filter_flatMap_of_key (declaring_nodup ht) (f := Prod.fst) _ hd]
  · change ((t.declared? _ _).bind _).toList = _
    rw [he, Option.bind_some]
    split
    · rfl
    · rfl
  · intro d' _ r hr
    obtain ⟨e', _, hr⟩ := Option.bind_eq_some_iff.mp (Option.mem_toList.mp hr)
    split at hr
    · cases hr
    · exact congrArg Prod.fst (Option.some.inj hr).symm

theorem redeclared_filter_of_not_mem (hn : n ∉ t.declaring) : t.redeclared.filter (·.1 = n) = [] := by
  refine List.filter_eq_nil_iff.mpr fun r hr hrn => hn ?_
  obtain ⟨d, hd, _, _, _, rfl⟩ := mem_redeclared_iff.mp hr
  exact of_decide_eq_true hrn ▸ List.mem_map_of_mem hd

theorem fst_of_mem_exportedBy {s : NodeId} {r : NodeId × NodeId} (hr : r ∈ t.exportedBy s) : r.1 = s := by
  obtain ⟨_, _, _, _, rfl⟩ := mem_exportedBy_iff.mp hr
  rfl

theorem exported_filter (ht : t.Consistent) (hn : t.Below t.root n) :
    t.exported.filter (·.1 = n) = t.exportedBy n :=
  Lists.filter_flatMap_of_key (k := id) (f := Prod.fst) (by rw [List.map_id]; exact walk_nodup ht)
    (fun _ _ _ hr => fst_of_mem_exportedBy hr) ((mem_walk_iff ht).mpr hn)

theorem used_filter (ht : t.Consistent) (hn : t.Below t.root n) (hu : t.isUse n = true) :
    t.used.filter (·.1 = n) =
      ((t.resolve? (t.scopeNode n) (t.text n)).map fun d => (n, d.identifier)).toList := by
  rw [used, List.filterMap_eq_flatMap_toList]
  refine Lists.filter_flatMap_of_key (k := id) (f := Prod.fst)
    (by rw [List.map_id]; exact (walk_nodup ht).filter _) (fun m _ r hr => ?_)
    (List.mem_filter.mpr ⟨(mem_walk_iff ht).mpr hn, hu⟩)
  obtain ⟨d, _, rfl⟩ := Option.map_eq_some_iff.mp (Option.mem_toList.mp hr)
  rfl

theorem used_filter_of_not_isUse (hu : t.isUse n = false) : t.used.filter (·.1 = n) = [] := by
  refine List.filter_eq_nil_iff.mpr fun r hr hrn => ?_
  obtain ⟨m, _, huse, _, _, rfl⟩ := mem_used_iff.mp hr
  obtain rfl : m = n := of_decide_eq_true hrn
  exact Bool.false_ne_true (hu.symm.trans huse)

theorem references_filter_eq (n : NodeId) : t.references.filter (·.1 = n) =
    t.redeclared.filter (·.1 = n) ++ t.exported.filter (·.1 = n) ++ t.used.filter (·.1 = n) := by
  rw [references, List.filter_append, List.filter_append]

theorem exportedBy_eq_nil (h : (t.visitOf n).exportsAt t = []) : t.exportedBy n = [] := by
  rw [exportedBy, h, List.filterMap_nil]

theorem exportsAt_of_leaf (h : t.children n = []) : (t.visitOf n).exportsAt t = [] := by
  rw [Visit.exportsAt]
  split
  · have hnone : t.child? (t.visitOf n).node .declaration = none := by
      rw [child?, show t.children (t.visitOf n).node = [] from h, List.find?_nil]
    rw [hnone]
  · rfl

/-- An identifier that declares is listed only where it repeats a declaration. -/
theorem references_declaration (ht : t.Consistent)
    (hleaf : ∀ i ∈ t.declaring, t.children i = []) (hd : d ∈ t.declarations)
    (he : t.declared? d.target (t.text d.identifier) = some e) :
    t.references.filter (·.1 = d.identifier) = if e = d then [] else [(d.identifier, e.identifier)] := by
  have hi : d.identifier ∈ t.declaring := List.mem_map_of_mem hd
  have hu : t.isUse d.identifier = false := Bool.eq_false_iff.mpr fun hu => (isUse_iff.mp hu).2.1 hi
  rw [references_filter_eq, redeclared_filter_of_mem ht hd he, exported_filter ht (declared_attached ht hd),
    exportedBy_eq_nil (exportsAt_of_leaf (hleaf _ hi)), used_filter_of_not_isUse hu, List.append_nil,
    List.append_nil]

/-- An export statement opens no scope. -/
theorem scopeNode_of_exportStatement (ht : t.Consistent) (hn : t.Below t.root n)
    (hk : t.kind n = .exportStatement) : t.scopeNode n = t.outerNode n := by
  by_cases hr : n = t.root
  · rw [hr, scopeNode_root ht, outerNode_root ht]
  · have hopens : t.isScope n = false := by
      simp [isScope, scopeOpened?, opens?, hr, hk, Kind.isFunction, Kind.isClass, Kind.isBlock]
    rw [scopeNode_eq ht hn, hopens]
    rfl

/-- What refers declares again, exports or is a use. -/
theorem reference_cases {r : NodeId × NodeId} (hr : r ∈ t.references) : r.1 ∈ t.declaring ∨
    t.kind r.1 = .exportStatement ∨ (t.kind r.1).isReference = true ∧ t.refers r.1 = true := by
  rcases mem_references_iff.mp hr with hr | hr | hr
  · obtain ⟨d, hd, _, _, _, rfl⟩ := mem_redeclared_iff.mp hr
    exact .inl (List.mem_map_of_mem hd)
  · exact .inr (.inl (kind_of_exported hr))
  · obtain ⟨m, _, hu, _, _, rfl⟩ := mem_used_iff.mp hr
    exact .inr (.inr ⟨(isUse_iff.mp hu).1, (isUse_iff.mp hu).2.2⟩)

end Tree

/-! ## The crawl -/

section Crawl

variable {c : Analysis} {t : Tree} {n : NodeId} {d e : Declaration NodeId}

variable (hr : Reflects c t t.references) (ht : t.Consistent)

include hr ht

theorem Reflects.enclosing (hn : t.Below t.root n) :
    c.scopeOf.get? (t.scopeNode n) = some (c.enclosing t n) :=
  hr.records.scopes.enclosing_eq ht (fun _ hm hs => (mem_scopeNodes_iff ht).mpr ⟨hm, hs⟩) hn

theorem Reflects.lookup?_lt (hn : t.Below t.root n) {name : String} {b : BindingId}
    (hb : c.lookup? (c.enclosing t n) name = some b) : b < c.bindings.size :=
  hr.records.lookup?_lt (enclosed_scopeNodes ht) (hr.enclosing ht hn) hb

theorem Reflects.listings_use (hn : t.Below t.root n) (hu : t.isUse n = true) :
    c.listings n = (c.lookup? (c.enclosing t n) (t.text n)).toList := by
  obtain ⟨hk, hdecl, _⟩ := isUse_iff.mp hu
  have hexport : t.kind n ≠ .exportStatement := fun h => by
    rw [h] at hk
    cases hk
  refine hr.records.ledger.listings_eq_toList (fun b hb => hr.lookup?_lt ht hn hb) ?_
  rw [references_filter_eq, redeclared_filter_of_not_mem hdecl, exported_filter ht hn,
    exportedBy_eq_nil (exportsAt_of_kind hexport), used_filter ht hn hu, hr.lookup? ht hn (t.text n)]
  cases t.resolve? (t.scopeNode n) (t.text n) <;> rfl

theorem Reflects.listings_export (hn : t.Below t.root n) (hk : t.kind n = .exportStatement)
    (hdecl : n ∉ t.declaring) : (c.listings n).Perm (((t.visitOf n).exportsAt t).filterMap fun i =>
      c.lookup? (c.enclosing t n) (t.text i)) := by
  have hu : t.isUse n = false := Bool.eq_false_iff.mpr fun hu => by
    have href := (isUse_iff.mp hu).1
    rw [hk] at href
    cases href
  refine hr.records.ledger.listings_perm (fun b hb => ?_) ?_
  · obtain ⟨i, _, hb⟩ := List.mem_filterMap.mp hb
    exact hr.lookup?_lt ht hn hb
  · rw [references_filter_eq, redeclared_filter_of_not_mem hdecl, exported_filter ht hn,
      used_filter_of_not_isUse hu, List.nil_append, List.append_nil, exportedBy, List.map_filterMap,
      List.map_filterMap]
    refine List.filterMap_congr fun i _ => ?_
    rw [hr.lookup? ht hn (t.text i), scopeNode_of_exportStatement ht hn hk, Option.map_map]
    rfl

end Crawl

/-- The lists of references of a crawl are those of declarative name resolution. -/
theorem occurrences_crawl {t : Tree} (ht : t.Consistent) (hleaf : ∀ i ∈ t.declaring, t.children i = [])
    (a : Analysis) : Occurrences (a.crawl t) t := by
  have hr := reflects_crawl ht a
  have hbound := (records_crawl ht a).2
  set c := a.crawl t
  refine {
    scope := fun n hn => hr.records.scopes.node (hr.enclosing ht hn)
    binding := fun b hb => ?_
    lookup := fun n hn name => hr.lookup? ht hn name
    use := fun n hn hk hdecl href => hr.listings_use ht hn (isUse_iff.mpr ⟨hk, hdecl, href⟩)
    first := fun d hd hfirst => ⟨?_, ?_⟩
    later := fun d hd e he hne => ⟨fun b hb hid => ?_, ?_⟩
    exported := fun n hn hk hdecl => hr.listings_export ht hn hk hdecl
    silent := fun n hn => exportsAt_of_leaf (hleaf n hn)
    only := fun n hn => ?_
    above := fun b hb n hn => ?_ }
  · obtain ⟨d, hd, hid⟩ := hbound b hb
    exact ⟨d, hd, (hr.records.describes hd hb hid).1⟩
  · obtain ⟨b, hb, _⟩ := hr.records.record d (binding_of_declared? hfirst).1
    obtain ⟨hlt, hid⟩ := hr.records.declared hb
    exact ⟨b, ⟨hlt, hid⟩, fun b' hb' =>
      hr.records.ledger.injective b' hb'.1 b hlt (hb'.2.trans hid.symm)⟩
  · refine hr.records.ledger.listings_eq_toList (o := none) (fun b hb => (by cases hb)) ?_
    rw [references_declaration ht hleaf hd hfirst, if_pos rfl]
    rfl
  · obtain ⟨e', he', hid'⟩ := hbound b hb
    obtain rfl := declaration_unique ht (mem_declarations_of_binding he') hd (hid'.trans hid)
    have hfirst : t.declared? e'.target (t.text e'.identifier) = some e' :=
      of_decide_eq_true (List.mem_filter.mp he').2
    exact hne (Option.some.inj (he.symm.trans hfirst))
  · obtain ⟨b, hb, hdesc⟩ := hr.records.record e (binding_of_declared? he).1
    obtain ⟨hlt, hid⟩ := hr.records.declared hb
    refine ⟨b, hlt, hdesc, hr.records.ledger.listings_eq_toList (o := some b) (fun b' hb' => ?_) ?_⟩
    · exact Option.some.inj hb' ▸ hlt
    · rw [references_declaration ht hleaf hd he, if_neg hne, Option.map_some, hid]
      rfl
  · obtain ⟨b, hb⟩ := List.exists_mem_of_ne_nil _ hn
    obtain ⟨hlt, hmem⟩ := mem_listings_iff.mp hb
    rw [hr.records.ledger.references b hlt] at hmem
    obtain ⟨r, hrm, rfl⟩ := List.mem_map.mp hmem
    have hrm := (List.mem_filter.mp hrm).1
    exact ⟨(reference_inside ht hrm).1, reference_cases hrm⟩
  · rw [hr.records.ledger.references b hb] at hn
    obtain ⟨r, hrm, rfl⟩ := List.mem_map.mp hn
    obtain ⟨hrm, hid⟩ := List.mem_filter.mp hrm
    obtain ⟨_, d, hd, hdid, hbelow⟩ := reference_inside ht hrm
    rw [(hr.records.describes hd hb (hdid.trans (of_decide_eq_true hid))).1.scope]
    exact hbelow

/-- The program `v; export var v, u; var v; function f() { v }`. -/
def exportingProgram : Tree where
  nodes := #[
    { kind := .program, children := [1, 3, 12, 16] },
    { kind := .expressionStatement, children := [2], parent := some 0 },
    { kind := .identifier, text := "v", parent := some 1 },
    { kind := .exportStatement, children := [4, 5], parent := some 0 },
    { kind := .other "export", named := false, text := "export", parent := some 3 },
    { kind := .variableDeclaration, field := some .declaration, children := [6, 7, 9, 10], parent := some 3 },
    { kind := .other "var", named := false, text := "var", parent := some 5 },
    { kind := .variableDeclarator, children := [8], parent := some 5 },
    { kind := .identifier, field := some .name, text := "v", parent := some 7 },
    { kind := .comma, named := false, text := ",", parent := some 5 },
    { kind := .variableDeclarator, children := [11], parent := some 5 },
    { kind := .identifier, field := some .name, text := "u", parent := some 10 },
    { kind := .variableDeclaration, children := [13, 14], parent := some 0 },
    { kind := .other "var", named := false, text := "var", parent := some 12 },
    { kind := .variableDeclarator, children := [15], parent := some 12 },
    { kind := .identifier, field := some .name, text := "v", parent := some 14 },
    { kind := .functionDeclaration, children := [17, 18], parent := some 0 },
    { kind := .identifier, field := some .name, text := "f", parent := some 16 },
    { kind := .statementBlock, field := some .body, children := [19], parent := some 16 },
    { kind := .expressionStatement, children := [20], parent := some 18 },
    { kind := .identifier, text := "v", parent := some 19 }]

/-- Two uses, an export of two names and a repeated declaration. -/
theorem occurrences_crawl_exportingProgram : exportingProgram.Consistent ∧
    (∀ i ∈ exportingProgram.declaring, exportingProgram.children i = []) ∧
    Occurrences (Analysis.crawl {} exportingProgram) exportingProgram ∧
    (Analysis.crawl {} exportingProgram).bindings.toList.map (fun b => (b.name, b.references)) =
      [("v", [15, 3, 2, 20]), ("u", [3]), ("f", [])] := by
  have ht : exportingProgram.Consistent := by decide +kernel
  have hleaf : ∀ i ∈ exportingProgram.declaring, exportingProgram.children i = [] := by decide +kernel
  exact ⟨ht, hleaf, occurrences_crawl ht hleaf {}, by decide +kernel⟩

end DeadCode
