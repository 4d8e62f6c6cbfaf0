import DeadCode.Proofs.Names.Current
import DeadCode.Proofs.Names.Sited

/-!
Subtracting in place of a new crawl. `Exact a t`: the tables of the analysis hold what name resolution in the tree
says, and nothing of constructs that left. A crawl is exact (`exact_crawl`), and a closed cut outside export
statements keeps an analysis exact (`Exact.subtract`). Two exact analyses of one tree agree up to the numbers that
scopes and bindings have in their stores (`Exact.agrees`).
-/

namespace DeadCode

open DeadCode.Tree

structure Exact (a : Analysis) (t : Tree) : Prop where
  version : a.version = some t.version
  reflects : Reflects a t t.references
  declared : ∀ {i b}, a.declared.get? i = some b → ∃ d ∈ t.bindings, d.identifier = i
  /-- A node without references has no entry. -/
  resolved : ∀ n, a.resolved.get? n ≠ some []

variable {a c : Analysis} {t t' : Tree} {q n m : NodeId} {gone : List NodeId}

theorem resolved_crawl (a : Analysis) (t : Tree) (n : NodeId) : (a.crawl t).resolved.get? n ≠ some [] := by
  have hreference : ∀ {a : Analysis}, (∀ n, a.resolved.get? n ≠ some []) → ∀ b m n,
      (a.reference b m).resolved.get? n ≠ some [] := by
    intro a ha b m n
    change (a.resolved.insert m _).get? n ≠ _
    rw [Table.get?_insert]
    split
    · simp
    · exact ha n
  have hstart : ∀ n, (Layout.ofTree t).analysis.resolved.get? n ≠ some [] := fun _ => (Option.some_ne_none _).symm
  refine crawl_induction (P := fun a => ∀ n, a.resolved.get? n ≠ some []) hstart (fun {s} hs d => ?_)
    (fun {a} ha i s m => ?_) (fun _ _ h => h) a n
  · rw [Survey.bind_eq]
    split
    · exact hreference hs _ _
    · exact hs
  · unfold Analysis.resolve
    split
    · exact ha
    · exact hreference ha _ _

theorem exact_crawl (ht : t.Consistent) (a : Analysis) : Exact (a.crawl t) t where
  version := rfl
  reflects := reflects_crawl ht a
  declared hb := by
    obtain ⟨hrecords, hbound⟩ := records_crawl ht a
    obtain ⟨hlt, rfl⟩ := hrecords.declared hb
    exact hbound _ hlt
  resolved := resolved_crawl a t

/-! ## References after a cut -/

/-- No export statement stands at or above the node. -/
def Tree.Unexported (t : Tree) (n : NodeId) : Prop := ∀ s, t.kind s = .exportStatement → ¬ t.Below s n

namespace Tree

namespace Unexported

theorem parent (h : t.Unexported n) {p : NodeId} (hp : t.parent n = some p) : t.Unexported p :=
  fun s hs hb => h s hs (.step hp hb)

theorem child (h : t.Unexported n) {c : NodeId} (hp : t.parent c = some n) (hk : t.kind c ≠ .exportStatement) :
    t.Unexported c := by
  intro s hs hb
  obtain ⟨p, hp', hb⟩ := hb.parent fun he => hk (he ▸ hs)
  obtain rfl := Option.some.inj (hp.symm.trans hp')
  exact h s hs hb

theorem cut (ht : t.Consistent) (hc : Cut t t' q n gone) (h : t.Unexported m) (hm : t.Below t.root m) :
    t'.Unexported m := by
  intro s hs hb
  have hb := hc.below_of_below ht (hm.lt_size ht) hb
  rw [hc.kind_eq s ((hm.root_of_below ht hb).lt_size ht)] at hs
  exact h s hs hb

end Unexported

section Cut

variable (ht : t.Consistent) (h : Pruning t t' q n gone)

include ht h

/-- A declaration that is not cut into keeps its names. -/
theorem declaredNames_stays (hm : Stays t gone m) (hne : m ≠ q) :
    t'.declaredNames m = t.declaredNames m ∧ ∀ i ∈ t.declaredNames m, Stays t gone i := by
  have hnames : ∀ c ∈ t.namedChildren m, Stays t gone c ∧ (t.kind c = .variableDeclarator →
      t'.patternNames c .name = t.patternNames c .name ∧ ∀ i ∈ t.patternNames c .name, Stays t gone i) := by
    intro c hc
    have hst := hm.child_of_ne h.cut (parent_of_namedChild ht hc) hne
    exact ⟨hst, fun hk => h.patternNames_of_not_site ht hst (by rw [hk]; rfl) .name⟩
  rw [declaredNames_eq, declaredNames_eq, h.cut.kind_eq m (hm.lt_size ht), h.cut.child?_of_ne ht hne,
    h.cut.namedChildren_of_ne ht hne]
  split
  · refine ⟨List.flatMap_congr fun c hc => ?_, fun i hi => ?_⟩
    · rw [h.cut.kind_eq c ((hnames c hc).1.lt_size ht)]
      split
      · rename_i hk
        exact ((hnames c hc).2 hk).1
      · rfl
    · obtain ⟨c, hc, hi⟩ := List.mem_flatMap.mp hi
      split at hi
      · rename_i hk
        exact ((hnames c hc).2 hk).2 i hi
      · cases hi
  · refine ⟨rfl, fun i hi => ?_⟩
    exact hm.child_of_ne h.cut (parent_of_child? ht (Option.mem_toList.mp hi)) hne

/-- An export statement that is not cut into names what it named. -/
theorem exportsAt_stays (hn : t.Unexported n) {v : Visit NodeId} (hst : Stays t gone v.node) :
    v.exportsAt t' = v.exportsAt t ∧ ∀ i ∈ v.exportsAt t, Stays t gone i := by
  have nothing : ∀ i ∈ ([] : List NodeId), Stays t gone i := fun i hi => absurd hi List.not_mem_nil
  unfold Visit.exportsAt
  rw [h.cut.kind_eq _ (hst.lt_size ht)]
  by_cases hk : t.kind v.node = .exportStatement
  · have hsite : (t.kind v.node).isSite = false := by rw [hk]; rfl
    rw [if_pos hk, if_pos hk, (h.child?_of_not_site ht hsite).1]
    cases hd : t.child? v.node .declaration with
    | none => exact ⟨rfl, nothing⟩
    | some d =>
      have hp := parent_of_child? ht hd
      refine declaredNames_stays ht h (hst.child_of_ne h.cut hp (h.ne_of_not_site hsite)) ?_
      rintro rfl
      exact hn _ hk (.step h.cut.parent_mem (.of_parent hp))
  · rw [if_neg hk, if_neg hk]
    exact ⟨rfl, nothing⟩

variable (hs : t.Framed) (hq : t.Below t.root q) (hn : t.Unexported n)
  (hc : Closed t.references (t.offcut gone))

include hs hq hn hc

theorem exported_uncut : t'.exported = t.exported.filter (·.1 ∉ t.offcut gone) := by
  have hred := (hc.mono named_subset_references).mono redeclared_subset_named
  have hfresh : ∀ m, t.size ≤ m → m < t'.size → t'.exportedBy m = [] := fun m hm hlt => by
    simp only [exportedBy, Visit.exportsAt, visitOf, h.cut.fresh_kind m hm hlt]
    rfl
  have hstays : ∀ m, Stays t gone m → t'.exportedBy m = t.exportedBy m := fun m hm => by
    obtain ⟨hnames, hst⟩ := exportsAt_stays ht h hn (v := t.visitOf m) hm
    obtain ⟨hwalk, hoff⟩ := (stays_iff_mem ht h.cut hq).mp hm
    rw [exportedBy, h.cut.visitOf_stays ht hm, hnames, h.cut.outerNode_stays ht hm, exportedBy]
    refine List.filterMap_congr fun i hi => ?_
    rw [h.cut.text_eq i ((hst i hi).lt_size ht),
      resolve?_cut ht hs h hq hred (hm.of_below ht (outerNode_below ht hm.1)) fun d hd hd' => ?_]
    refine hoff (hc (m, d.identifier) (exported_subset_references _ ?_) hd')
    exact mem_exported_iff.mpr ⟨m, hwalk, i, hi, d, hd, rfl⟩
  rw [exported, walk_flatMap_cut ht h hq hfresh hstays, exported, List.filter_flatMap,
    ← Lists.flatMap_filter_of_nil (p := (decide <| · ∉ t.offcut gone)) (l := t.walk)]
  · refine List.flatMap_congr fun m hm => (List.filter_eq_self.mpr fun r hr => ?_).symm
    obtain ⟨_, _, _, _, rfl⟩ := mem_exportedBy_iff.mp hr
    exact (List.mem_filter.mp hm).2
  · intro m hm hoff
    refine List.filter_eq_nil_iff.mpr fun r hr => ?_
    obtain ⟨_, _, _, _, rfl⟩ := mem_exportedBy_iff.mp hr
    simpa using hoff

omit hn hc in
/-- What refers leaves with the subtree of `n` only: no comma does. -/
theorem offcut_refers {r : NodeId × NodeId} (hr : r ∈ t.references) :
    r.1 ∈ t.offcut gone ↔ r.1 ∈ t.walkFrom n := by
  refine ⟨fun hoff => ?_, fun hw => List.mem_flatMap.mpr ⟨n, h.cut.node_mem, hw⟩⟩
  refine (mem_offcut ht hs h hq hoff).elim id fun hcomma => ?_
  rcases mem_references_iff.mp hr with hr | hr | hr
  · obtain ⟨d, hd, _, _, _, rfl⟩ := mem_redeclared_iff.mp hr
    exact (offcut_declared ht hs h hq hd).mp hoff
  · rw [kind_of_exported hr] at hcomma
    cases hcomma
  · obtain ⟨m, _, huse, _, _, rfl⟩ := mem_used_iff.mp hr
    rw [isUse, hcomma] at huse
    cases huse

/-- The references left are those of the nodes left. -/
theorem references_cut : t'.references = t.references.filter (·.1 ∉ t.walkFrom n) := by
  have hnamed : Closed t.named (t.offcut gone) := hc.mono named_subset_references
  have hoff : t'.references = t.references.filter (·.1 ∉ t.offcut gone) := by
    rw [references, redeclared_cut ht hs h hq (hnamed.mono redeclared_subset_named),
      exported_uncut ht h hs hq hn hc, used_cut ht hs h hq hnamed, references, List.filter_append,
      List.filter_append]
  rw [hoff]
  exact List.filter_congr fun r hr => decide_eq_decide.mpr (not_congr (offcut_refers ht h hs hq hr))

end Cut

end Tree

theorem Exact.subtract (ht : t.Consistent) (hs : t.Framed) (h : Pruning t t' q n gone) (hq : t.Below t.root q)
    (hn : t.Unexported n) (hc : Closed t.references (t.offcut gone)) (ha : Exact a t) :
    Exact (a.subtract t' n) t' := by
  have hred := (hc.mono named_subset_references).mono redeclared_subset_named
  have hget := get?_dropNodes (t.walkFrom n) a
  refine ⟨version_subtract h.cut ha.version, ?_, fun {i b} hb => ?_, fun m => ?_⟩
  · rw [references_cut ht h hs hq hn hc]
    exact ha.reflects.subtract ht hs h hq hred ha.version
  · rw [subtract_eq ht h.cut hq ha.version] at hb
    have hb := (hget i).1.symm.trans hb
    split at hb
    · cases hb
    · rename_i hw
      obtain ⟨d, hd, rfl⟩ := ha.declared hb
      refine ⟨d, ?_, rfl⟩
      rw [bindings_cut ht hs h hq hred, List.mem_filter, decide_eq_true_eq,
        offcut_declared ht hs h hq (mem_declarations_of_binding hd)]
      exact ⟨hd, hw⟩
  · rw [subtract_eq ht h.cut hq ha.version]
    refine (hget m).2.symm ▸ ?_
    split
    · exact (Option.some_ne_none _).symm
    · exact ha.resolved m

/-! ## Two analyses of one tree -/

namespace Analysis

/-- Two numbers of a scope: in `a` and in `c` the node is in the table of scopes with them. -/
def SameScope (a c : Analysis) (s s' : ScopeId) : Prop :=
  ∃ n, a.scopeOf.get? n = some s ∧ c.scopeOf.get? n = some s'

/-- Two numbers of a binding: in `a` and in `c` the identifier is in the table of declarations with them. -/
def SameName (a c : Analysis) (b b' : BindingId) : Prop :=
  ∃ i, a.declared.get? i = some b ∧ c.declared.get? i = some b'

/-- The two analyses hold the same scopes, names and references in the same order, up to the numbers of scopes and
bindings. What the stores hold beside is left open, and so are the revisions and the number of crawls, which tell of
the past. -/
structure Agrees (a c : Analysis) : Prop where
  version : a.version = c.version
  program : a.SameScope c program program
  scopeOf : ∀ n, Option.Rel (a.SameScope c) (a.scopeOf.get? n) (c.scopeOf.get? n)
  declared : ∀ i, Option.Rel (a.SameName c) (a.declared.get? i) (c.declared.get? i)
  resolved : ∀ n, Option.Rel (List.Forall₂ (a.SameName c)) (a.resolved.get? n) (c.resolved.get? n)
  node : ∀ {s s'}, a.SameScope c s s' → (a.scope s).node = (c.scope s').node
  kind : ∀ {s s'}, a.SameScope c s s' → (a.scope s).kind = (c.scope s').kind
  parent : ∀ {s s'}, a.SameScope c s s' → Option.Rel (a.SameScope c) (a.scope s).parent (c.scope s').parent
  children : ∀ {s s'}, a.SameScope c s s' →
    List.Forall₂ (a.SameScope c) (a.scope s).children (c.scope s').children
  names : ∀ {s s'}, a.SameScope c s s' → List.Forall₂ (fun e e' => e.1 = e'.1 ∧ a.SameName c e.2 e'.2)
    (a.scope s).names.entries (c.scope s').names.entries
  binding : ∀ {b b'}, a.SameName c b b' → a.SameScope c (a.binding b).scope (c.binding b').scope ∧
    a.binding b = { c.binding b' with scope := (a.binding b).scope }

/-- Analyses that agree find the same names without references in a scope. -/
theorem Agrees.unreferenced (h : a.Agrees c) {s s' : ScopeId} (hs : a.SameScope c s s') :
    List.Forall₂ (a.SameName c) (a.unreferenced s) (c.unreferenced s') := by
  have hown : List.Forall₂ (a.SameName c) (a.ownBindings s) (c.ownBindings s') :=
    List.forall₂_map_left_iff.mpr (List.forall₂_map_right_iff.mpr ((h.names hs).imp fun _ _ he => he.2))
  refine List.rel_filter (fun b b' hb => ?_) hown
  change (!(a.binding b).referenced) = true ↔ (!(c.binding b').referenced) = true
  rw [(h.binding hb).2]
  rfl

end Analysis

namespace Exact

theorem scopeOf_isSome (ha : Exact a t) : (∃ s, a.scopeOf.get? n = some s) ↔ n ∈ t.scopeNodes :=
  (ha.reflects.records.scopes.mem_iff n).symm

theorem declared_isSome (ha : Exact a t) {i : NodeId} :
    (∃ b, a.declared.get? i = some b) ↔ ∃ d ∈ t.bindings, d.identifier = i := by
  refine ⟨fun ⟨_, hb⟩ => ha.declared hb, ?_⟩
  rintro ⟨d, hd, rfl⟩
  obtain ⟨b, hb, _⟩ := ha.reflects.records.record d hd
  exact ⟨b, hb⟩

theorem resolved_isSome (ha : Exact a t) :
    (∃ l, a.resolved.get? n = some l) ↔ t.references.filter (·.1 = n) ≠ [] := by
  have hmap := ha.reflects.records.ledger.resolved n
  rw [Ne, ← List.map_eq_nil_iff (f := Prod.snd), ← hmap, List.map_eq_nil_iff]
  cases hl : a.resolved.get? n with
  | none => simp
  | some l => exact ⟨fun _ => fun he => ha.resolved n (hl.trans (congrArg some he)), fun _ => ⟨l, rfl⟩⟩

/-- A binding that a node counts towards is in the table of declarations. -/
theorem declared_of_resolved (ht : t.Consistent) (ha : Exact a t) {l : List BindingId}
    (hl : a.resolved.get? n = some l) {b : BindingId} (hb : b ∈ l) :
    a.declared.get? (a.identifierOf b) = some b := by
  have hledger := ha.reflects.records.ledger
  have hb : b ∈ (a.resolved.get? n).getD [] := by rw [hl]; exact hb
  have hmem := List.mem_map_of_mem (f := a.identifierOf) hb
  rw [hledger.resolved n] at hmem
  obtain ⟨r, hr, hid⟩ := List.mem_map.mp hmem
  obtain ⟨_, d, hd, hid', _⟩ := reference_inside ht (List.mem_filter.mp hr).1
  obtain ⟨x, hx, _⟩ := ha.reflects.records.record d hd
  obtain ⟨hlt, hxid⟩ := ha.reflects.records.declared hx
  have he : a.identifierOf x = a.identifierOf b := hxid.trans (hid'.trans hid)
  obtain rfl := hledger.injective x hlt b (hledger.resolved_lt n b hb) he
  rwa [hxid]

/-- What the table of declarations says of an identifier. -/
theorem describes (ht : t.Consistent) (ha : Exact a t) {i : NodeId} {b : BindingId}
    (hb : a.declared.get? i = some b) : ∃ d ∈ t.bindings, d.identifier = i ∧ Describes a t (a.binding b) d ∧
      a.scopeOf.get? d.target = some (a.binding b).scope ∧
      (a.binding b).references = (t.references.filter (·.2 = i)).map Prod.fst := by
  have hrecords := ha.reflects.records
  obtain ⟨d, hd, rfl⟩ := ha.declared hb
  obtain ⟨x, hx, hdesc⟩ := hrecords.record d hd
  obtain rfl := Option.some.inj (hb.symm.trans hx)
  obtain ⟨hlt, hid⟩ := hrecords.declared hb
  refine ⟨d, hd, rfl, hdesc, (hrecords.own?_of_mem hd (target_mem_scopeNodes ht hd) hb).2, ?_⟩
  rw [hrecords.ledger.references b hlt, hid]

section Agrees

variable (ha : Exact a t) (hc : Exact c t)

include ha hc

theorem parent_agrees (ht : t.Consistent) {s s' : ScopeId} (hs : a.SameScope c s s') :
    Option.Rel (a.SameScope c) (a.scope s).parent (c.scope s').parent := by
  obtain ⟨n, hs, hs'⟩ := hs
  have hsa := ha.reflects.records.scopes
  have hsc := hc.reflects.records.scopes
  by_cases hn : n = t.root
  · subst hn
    obtain rfl := Option.some.inj (hs.symm.trans hsa.root)
    obtain rfl := Option.some.inj (hs'.symm.trans hsc.root)
    rw [hsa.parent_root, hsc.parent_root]
    exact .none
  · obtain ⟨p, _, hp, hparent⟩ := hsa.parent_live (enclosed_scopeNodes ht) hs hn
    obtain ⟨p', _, hp', hparent'⟩ := hsc.parent_live (enclosed_scopeNodes ht) hs' hn
    rw [hparent, hparent']
    exact .some ⟨t.outerNode n, hp, hp'⟩

theorem children_agree {s s' : ScopeId} (hs : a.SameScope c s s') :
    List.Forall₂ (a.SameScope c) (a.scope s).children (c.scope s').children := by
  obtain ⟨n, hs, hs'⟩ := hs
  have hsa := ha.reflects.records.scopes
  have hsc := hc.reflects.records.scopes
  refine Lists.forall₂_of_map_eq ((hsa.children hs).trans (hsc.children hs').symm) fun x hx y hy he => ?_
  exact ⟨(a.scope x).node, hsa.child hs x hx, he ▸ hsc.child hs' y hy⟩

theorem names_agree {s s' : ScopeId} (hs : a.SameScope c s s') :
    List.Forall₂ (fun e e' => e.1 = e'.1 ∧ a.SameName c e.2 e'.2)
      (a.scope s).names.entries (c.scope s').names.entries := by
  obtain ⟨n, hs, hs'⟩ := hs
  have hra := ha.reflects.records
  have hrc := hc.reflects.records
  refine Lists.forall₂_of_map_eq ((hra.names hs).trans (hrc.names hs').symm) fun e he e' he' heq => ?_
  obtain ⟨hname, hid⟩ := Prod.mk.inj heq
  exact ⟨hname, a.identifierOf e.2, hra.entry hs e he, hid ▸ hrc.entry hs' e' he'⟩

theorem binding_agrees (ht : t.Consistent) {b b' : BindingId} (hb : a.SameName c b b') :
    a.SameScope c (a.binding b).scope (c.binding b').scope ∧
      a.binding b = { c.binding b' with scope := (a.binding b).scope } := by
  obtain ⟨i, hb, hb'⟩ := hb
  obtain ⟨d, hd, hid, hdesc, hscope, hrefs⟩ := ha.describes ht hb
  obtain ⟨e, he, hid', hdesc', hscope', hrefs'⟩ := hc.describes ht hb'
  obtain rfl := declaration_unique ht (mem_declarations_of_binding hd) (mem_declarations_of_binding he)
    (hid.trans hid'.symm)
  refine ⟨⟨d.target, hscope, hscope'⟩, ?_⟩
  have hfields : ∀ {x y : Binding}, x.name = y.name → x.keyword = y.keyword → x.identifier = y.identifier →
      x.path = y.path → x.construct = y.construct → x.references = y.references →
      x.coDeclared = y.coDeclared → x = { y with scope := x.scope } := by
    rintro ⟨⟩ ⟨⟩ rfl rfl rfl rfl rfl rfl rfl
    rfl
  exact hfields (hdesc.name.trans hdesc'.name.symm) (hdesc.keyword.trans hdesc'.keyword.symm)
    (hdesc.identifier.trans hdesc'.identifier.symm) (hdesc.path.trans hdesc'.path.symm)
    (hdesc.construct.trans hdesc'.construct.symm) (hrefs.trans hrefs'.symm)
    (hdesc.coDeclared.trans hdesc'.coDeclared.symm)

theorem resolved_agrees (ht : t.Consistent) (n : NodeId) :
    Option.Rel (List.Forall₂ (a.SameName c)) (a.resolved.get? n) (c.resolved.get? n) := by
  refine Lists.optionRel_of_iff (ha.resolved_isSome.trans hc.resolved_isSome.symm) fun l l' hl hl' => ?_
  have hmap := (ha.reflects.records.ledger.resolved n).trans (hc.reflects.records.ledger.resolved n).symm
  rw [hl, hl'] at hmap
  refine Lists.forall₂_of_map_eq hmap fun b hb b' hb' he => ?_
  exact ⟨a.identifierOf b, ha.declared_of_resolved ht hl hb, he ▸ hc.declared_of_resolved ht hl' hb'⟩

/-- Exact analyses of one tree hold the same. -/
theorem agrees (ht : t.Consistent) : a.Agrees c where
  version := ha.version.trans hc.version.symm
  program := ⟨t.root, ha.reflects.records.scopes.root, hc.reflects.records.scopes.root⟩
  scopeOf n := Lists.optionRel_of_iff (ha.scopeOf_isSome.trans hc.scopeOf_isSome.symm)
    fun _ _ hs hs' => ⟨n, hs, hs'⟩
  declared i := Lists.optionRel_of_iff (ha.declared_isSome.trans hc.declared_isSome.symm)
    fun _ _ hb hb' => ⟨i, hb, hb'⟩
  resolved := resolved_agrees ha hc ht
  node := fun ⟨_, hs, hs'⟩ => (ha.reflects.records.scopes.node hs).trans (hc.reflects.records.scopes.node hs').symm
  kind := fun ⟨_, hs, hs'⟩ => (ha.reflects.records.scopes.kind hs).trans (hc.reflects.records.scopes.kind hs').symm
  parent := parent_agrees ha hc ht
  children := children_agree ha hc
  names := names_agree ha hc
  binding := binding_agrees ha hc ht

end Agrees

end Exact

end DeadCode
