import DeadCode.Proofs.Names.Lineage
import DeadCode.Proofs.Names.Store

/-!
The layout of a crawl. `Scopes a t ns` says that the live scopes of an analysis are those of the nodes
`ns`, linked as the tree has them. Main statement: `laidOut_ofTree`, a layout visits the walk of the tree
and opens the scopes of its nodes, each visit with the scopes around and inside its node.
-/

namespace DeadCode

open DeadCode.Tree

/-- The scope around each of some scopes is one of them. -/
def Tree.Enclosed (t : Tree) (ns : List NodeId) : Prop := ∀ n ∈ ns, n ≠ t.root → t.outerNode n ∈ ns

structure Scopes (a : Analysis) (t : Tree) (ns : List NodeId) : Prop where
  nodup : ns.Nodup
  attached : ∀ n ∈ ns, t.Below t.root n ∧ t.isScope n = true
  mem_iff : ∀ n, n ∈ ns ↔ ∃ s, a.scopeOf.get? n = some s
  lt : ∀ {n s}, a.scopeOf.get? n = some s → s < a.scopes.size
  node : ∀ {n s}, a.scopeOf.get? n = some s → (a.scope s).node = n
  unique : ∀ s < a.scopes.size, ∀ s' < a.scopes.size, (a.scope s).node = (a.scope s').node → s = s'
  kind : ∀ {n s}, a.scopeOf.get? n = some s → (a.scope s).kind = t.scopeKind n
  root : a.scopeOf.get? t.root = some Analysis.program
  parent_root : (a.scope Analysis.program).parent = none
  parent : ∀ {n s}, a.scopeOf.get? n = some s → n ≠ t.root →
    ∃ p < s, (a.scope p).node = t.outerNode n ∧ (a.scope s).parent = some p
  children : ∀ {n s}, a.scopeOf.get? n = some s → (a.scope s).children.map (fun c => (a.scope c).node) =
    ns.filter fun m => m ≠ t.root ∧ t.outerNode m = n
  child : ∀ {n s}, a.scopeOf.get? n = some s → ∀ c ∈ (a.scope s).children,
    a.scopeOf.get? (a.scope c).node = some c

namespace Scopes

variable {a : Analysis} {t : Tree} {ns : List NodeId} {n : NodeId} {s : ScopeId}

theorem mem_of_some (h : Scopes a t ns) (hs : a.scopeOf.get? n = some s) : n ∈ ns :=
  (h.mem_iff n).mpr ⟨s, hs⟩

/-- A live scope is the only one of its node. -/
theorem scopeOf_node (h : Scopes a t ns) (hs : s < a.scopes.size) (hn : (a.scope s).node ∈ ns) :
    a.scopeOf.get? (a.scope s).node = some s := by
  obtain ⟨s', hs'⟩ := (h.mem_iff _).mp hn
  rw [hs', h.unique s' (h.lt hs') s hs (h.node hs')]

theorem parent_live (h : Scopes a t ns) (hc : t.Enclosed ns) (hs : a.scopeOf.get? n = some s)
    (hr : n ≠ t.root) :
    ∃ p < s, a.scopeOf.get? (t.outerNode n) = some p ∧ (a.scope s).parent = some p := by
  obtain ⟨p, hp, hnode, hparent⟩ := h.parent hs hr
  have := h.scopeOf_node (lt_trans hp (h.lt hs)) (hnode ▸ hc n (h.mem_of_some hs) hr)
  exact ⟨p, hp, hnode ▸ this, hparent⟩

theorem nodup_children (h : Scopes a t ns) (hs : a.scopeOf.get? n = some s) : (a.scope s).children.Nodup := by
  refine List.Nodup.of_map (f := fun c => (a.scope c).node) ?_
  rw [h.children hs]
  exact h.nodup.filter _

/-- A child names its parent. -/
theorem parent_of_child (h : Scopes a t ns) (hs : a.scopeOf.get? n = some s) {c : ScopeId}
    (hc : c ∈ (a.scope s).children) : (a.scope c).parent = some s := by
  have hmem : (a.scope c).node ∈ ns.filter fun m => m ≠ t.root ∧ t.outerNode m = n := by
    rw [← h.children hs]
    exact List.mem_map_of_mem (f := fun c => (a.scope c).node) hc
  obtain ⟨hroot, hout⟩ : (a.scope c).node ≠ t.root ∧ t.outerNode (a.scope c).node = n := by
    simpa using (List.mem_filter.mp hmem).2
  have hlive := h.child hs c hc
  obtain ⟨p, hp, hnode, hparent⟩ := h.parent hlive hroot
  rw [hparent, h.unique p (hp.trans (h.lt hlive)) s (h.lt hs) (by rw [hnode, hout, h.node hs])]

end Scopes

namespace Layout

/-- The scopes of a layout as an analysis without bindings. -/
def analysis (l : Layout) : Analysis := { scopes := l.scopes, scopeOf := l.scopeOf }

def opened (t : Tree) (n : NodeId) : Bool := n ≠ t.root ∧ (t.scopeOpened? n).isSome

/-- What a layout holds when the nodes `visited` have been visited. -/
structure LaidOut (t : Tree) (l : Layout) (visited : List NodeId) : Prop where
  scopes : Scopes l.analysis t (t.root :: visited.filter (opened t))
  enclosed : t.Enclosed (t.root :: visited.filter (opened t))
  live : ∀ s < l.scopes.size, l.scopeOf.get? (l.analysis.scope s).node = some s
  blank : ∀ s, (l.analysis.scope s).names = {}
  nodes : l.visits.toList.map Visit.node = visited
  visit : ∀ v ∈ l.visits.toList, l.scopeOf.get? (t.outerNode v.node) = some v.outer ∧
    l.scopeOf.get? (t.scopeNode v.node) = some v.inner

variable {t : Tree} {l : Layout} {ns visited : List NodeId} {outer : ScopeId} {n : NodeId} {kind : ScopeKind}

/-- One more scope in the store: the child `n` of `outer`. -/
def openScope (l : Layout) (outer : ScopeId) (n : NodeId) (kind : ScopeKind) : Layout :=
  { l with
    scopes := (l.scopes.modify outer fun s => { s with children := s.children ++ [l.scopes.size] }).push
      { node := n, kind, parent := some outer }
    scopeOf := l.scopeOf.insert n l.scopes.size }

theorem enter_eq (l : Layout) (t : Tree) (outer : ScopeId) (n : NodeId) : l.enter t outer n =
    match t.scopeOpened? n with
    | none => (outer, l)
    | some kind => (l.scopes.size, l.openScope outer n kind) := rfl

@[simp] theorem size_openScope (l : Layout) (outer : ScopeId) (n : NodeId) (kind : ScopeKind) :
    (l.openScope outer n kind).scopes.size = l.scopes.size + 1 := by
  simp [openScope]

theorem scope_openScope (l : Layout) (outer : ScopeId) (n : NodeId) (kind : ScopeKind) (s : ScopeId) :
    (l.openScope outer n kind).analysis.scope s =
      if s = l.scopes.size then { node := n, kind, parent := some outer }
      else if outer = s ∧ s < l.scopes.size then
        { l.analysis.scope s with children := (l.analysis.scope s).children ++ [l.scopes.size] }
      else l.analysis.scope s := by
  have := Analysis.scope_modifyScope l.analysis outer s
    fun sc => { sc with children := sc.children ++ [l.scopes.size] }
  simp only [Analysis.scope, openScope, analysis, Analysis.modifyScope] at this ⊢
  rw [Analysis.getD_push, Array.size_modify]
  split
  · rfl
  · exact this

/-- An old scope keeps all but its children. -/
theorem scope_openScope_old {α : Type} (g : Scope → α) (hg : ∀ sc cs, g { sc with children := cs } = g sc)
    {s : ScopeId} (hs : s < l.scopes.size) :
    g ((l.openScope outer n kind).analysis.scope s) = g (l.analysis.scope s) := by
  rw [scope_openScope, if_neg (ne_of_lt hs)]
  split
  · exact hg _ _
  · rfl

theorem children_openScope {s : ScopeId} (hs : s < l.scopes.size) :
    ((l.openScope outer n kind).analysis.scope s).children =
      (l.analysis.scope s).children ++ if outer = s then [l.scopes.size] else [] := by
  rw [scope_openScope, if_neg (ne_of_lt hs)]
  by_cases h : outer = s
  · simp [h, hs]
  · simp [h]

theorem scope_openScope_new :
    (l.openScope outer n kind).analysis.scope l.scopes.size = { node := n, kind, parent := some outer } := by
  rw [scope_openScope, if_pos rfl]

theorem scopeOf_openScope (m : NodeId) : (l.openScope outer n kind).scopeOf.get? m =
    if n = m then some l.scopes.size else l.scopeOf.get? m :=
  Table.get?_insert _ _ _ _

/-- A look-up finds the new scope or an old one. -/
theorem scopeOf_openScope_cases {m : NodeId} {s : ScopeId}
    (hm : (l.openScope outer n kind).scopeOf.get? m = some s) :
    (n = m ∧ s = l.scopes.size) ∨ l.scopeOf.get? m = some s := by
  rw [scopeOf_openScope] at hm
  split at hm
  · exact .inl ⟨‹_›, (Option.some.inj hm).symm⟩
  · exact .inr hm

theorem node_openScope {s : ScopeId} (hs : s < l.scopes.size) :
    ((l.openScope outer n kind).analysis.scope s).node = (l.analysis.scope s).node :=
  scope_openScope_old Scope.node (fun _ _ => rfl) hs

section Opening

variable {m : NodeId} {s : ScopeId} (h : Scopes l.analysis t ns) (hnew : n ∉ ns)

include h

/-- The scope around the new one gets it as its last child, and no other scope does. -/
theorem children_openScope_old (hroot : n ≠ t.root) (ho : l.scopeOf.get? (t.outerNode n) = some outer)
    (hm : l.scopeOf.get? m = some s) :
    ((l.openScope outer n kind).analysis.scope s).children.map
      (fun c => ((l.openScope outer n kind).analysis.scope c).node) =
      (ns ++ [n]).filter fun k => k ≠ t.root ∧ t.outerNode k = m := by
  rw [children_openScope (h.lt hm), List.map_append, List.filter_append]
  congr 1
  · rw [← h.children hm]
    exact List.map_congr_left fun c hc => node_openScope (h.lt (h.child hm c hc))
  · have hsame : outer = s ↔ t.outerNode n = m := by
      refine ⟨fun he => ?_, fun he => ?_⟩
      · subst he
        exact (h.node ho).symm.trans (h.node hm)
      · subst he
        exact Option.some.inj (ho.symm.trans hm)
    by_cases he : outer = s
    · simp [he, scope_openScope_new, hroot, hsame.mp he]
    · have : t.outerNode n ≠ m := fun h => he (hsame.mpr h)
      simp [he, this]

include hnew

theorem ne_of_scopeOf (hm : l.scopeOf.get? m = some s) : n ≠ m := by
  rintro rfl
  exact hnew (h.mem_of_some hm)

theorem scopeOf_openScope_old (hm : l.scopeOf.get? m = some s) :
    (l.openScope outer n kind).scopeOf.get? m = some s := by
  rw [scopeOf_openScope, if_neg (ne_of_scopeOf h hnew hm), hm]

theorem unique_openScope (hlive : ∀ s < l.scopes.size, l.scopeOf.get? (l.analysis.scope s).node = some s) :
    ∀ s < (l.openScope outer n kind).scopes.size, ∀ s' < (l.openScope outer n kind).scopes.size,
      ((l.openScope outer n kind).analysis.scope s).node = ((l.openScope outer n kind).analysis.scope s').node →
      s = s' := by
  intro s hs s' hs' he
  rw [size_openScope] at hs hs'
  have apart : ∀ {s}, s < l.scopes.size → n ≠ (l.analysis.scope s).node :=
    fun hs => ne_of_scopeOf h hnew (hlive _ hs)
  rcases Nat.lt_succ_iff_lt_or_eq.mp hs with hs | rfl <;> rcases Nat.lt_succ_iff_lt_or_eq.mp hs' with hs' | rfl
  · rw [node_openScope hs, node_openScope hs'] at he
    exact h.unique s hs s' hs' he
  · rw [scope_openScope_new, node_openScope hs] at he
    exact absurd he.symm (apart hs)
  · rw [scope_openScope_new, node_openScope hs'] at he
    exact absurd he (apart hs')
  · rfl

/-- No scope opened so far is in the new one. -/
theorem not_around_new (hc : t.Enclosed ns) (houter : n ≠ t.outerNode n) :
    (ns ++ [n]).filter (fun m => m ≠ t.root ∧ t.outerNode m = n) = [] := by
  refine List.filter_eq_nil_iff.mpr fun m hm => ?_
  simp only [decide_eq_true_eq, not_and]
  intro hmr he
  rcases List.mem_append.mp hm with hm | hm
  · obtain ⟨s, hs⟩ := (h.mem_iff m).mp hm
    obtain ⟨p, _, hp, _⟩ := h.parent_live hc hs hmr
    exact ne_of_scopeOf h hnew hp he.symm
  · rw [List.mem_singleton.mp hm] at he
    exact houter he.symm

theorem child_openScope (hm : l.scopeOf.get? m = some s) {c : ScopeId}
    (hc : c ∈ ((l.openScope outer n kind).analysis.scope s).children) :
    (l.openScope outer n kind).scopeOf.get? ((l.openScope outer n kind).analysis.scope c).node = some c := by
  rw [children_openScope (h.lt hm), List.mem_append] at hc
  rcases hc with hc | hc
  · have hlisted := h.child hm c hc
    rw [node_openScope (h.lt hlisted)]
    exact scopeOf_openScope_old h hnew hlisted
  · obtain rfl : c = l.scopes.size := by
      split at hc <;> simp_all
    rw [scope_openScope_new, scopeOf_openScope, if_pos rfl]

/-- Opening the scope of a node whose surroundings are laid out already. -/
theorem scopes_openScope (hc : t.Enclosed ns)
    (hlive : ∀ s < l.scopes.size, l.scopeOf.get? (l.analysis.scope s).node = some s)
    (hn : t.Below t.root n) (hroot : n ≠ t.root) (hk : t.scopeOpened? n = some kind)
    (ho : l.scopeOf.get? (t.outerNode n) = some outer) :
    Scopes (l.openScope outer n kind).analysis t (ns ++ [n]) := by
  have hlt : ∀ {m s}, l.scopeOf.get? m = some s → s < l.scopes.size := fun hm => h.lt hm
  have hcases : ∀ {m s}, (l.openScope outer n kind).scopeOf.get? m = some s →
      (n = m ∧ s = l.scopes.size) ∨ l.scopeOf.get? m = some s := fun hm => scopeOf_openScope_cases hm
  refine {
    nodup := h.nodup.append (List.nodup_singleton n) (by simpa using hnew)
    attached := fun m hm => ?_, mem_iff := fun m => ?_, lt := fun hm => ?_, node := fun hm => ?_
    unique := unique_openScope h hnew hlive
    kind := fun hm => ?_, root := ?_, parent_root := ?_, parent := fun hm hmr => ?_
    children := fun hm => ?_, child := fun hm c hc => ?_ }
  · rcases List.mem_append.mp hm with hm | hm
    · exact h.attached m hm
    · rw [List.mem_singleton.mp hm]
      exact ⟨hn, by simp [isScope, hk]⟩
  · rw [List.mem_append, List.mem_singleton, h.mem_iff]
    simp only [analysis, scopeOf_openScope]
    by_cases he : n = m
    · simp [he]
    · simp [he, Ne.symm he]
  · change _ < (l.openScope outer n kind).scopes.size
    rw [size_openScope]
    rcases hcases hm with ⟨_, rfl⟩ | hm
    · exact Nat.lt_succ_self _
    · exact Nat.lt_succ_of_lt (hlt hm)
  · rcases hcases hm with ⟨rfl, rfl⟩ | hm
    · rw [scope_openScope_new]
    · rw [node_openScope (hlt hm), h.node hm]
  · rcases hcases hm with ⟨rfl, rfl⟩ | hm
    · rw [scope_openScope_new, scopeKind, hk]
      rfl
    · rw [scope_openScope_old Scope.kind (fun _ _ => rfl) (hlt hm), h.kind hm]
  · change (l.openScope outer n kind).scopeOf.get? t.root = _
    exact scopeOf_openScope_old h hnew h.root
  · rw [scope_openScope_old Scope.parent (fun _ _ => rfl) (hlt h.root), h.parent_root]
  · rcases hcases hm with ⟨rfl, rfl⟩ | hm
    · exact ⟨outer, hlt ho, by rw [node_openScope (hlt ho), h.node ho], by rw [scope_openScope_new]⟩
    · obtain ⟨p, hps, hp, hpar⟩ := h.parent hm hmr
      exact ⟨p, hps, by rw [node_openScope (hps.trans (hlt hm)), hp],
        by rw [scope_openScope_old Scope.parent (fun _ _ => rfl) (hlt hm), hpar]⟩
  · rcases hcases hm with ⟨rfl, rfl⟩ | hm
    · rw [not_around_new h hnew hc (ne_of_scopeOf h hnew ho), scope_openScope_new, List.map_nil]
    · exact children_openScope_old h hroot ho hm
  · rcases hcases hm with ⟨rfl, rfl⟩ | hm
    · rw [scope_openScope_new] at hc
      exact absurd hc List.not_mem_nil
    · exact child_openScope h hnew hm hc

end Opening

/-! ## The whole tree -/

section Entering

variable (ht : t.Consistent) (h : LaidOut t l visited) (hn : t.Below t.root n)
  (ho : l.scopeOf.get? (t.outerNode n) = some outer)

/-- The visits with one more, while what was laid out before stays. -/
theorem LaidOut.visit_push (h : LaidOut t l visited) (l' : Layout) (hv : l'.visits = l.visits)
    (hkeep : ∀ m s, l.scopeOf.get? m = some s → l'.scopeOf.get? m = some s) {v : Visit ScopeId}
    (houter : l'.scopeOf.get? (t.outerNode v.node) = some v.outer)
    (hinner : l'.scopeOf.get? (t.scopeNode v.node) = some v.inner) :
    ∀ w ∈ (l'.visits.push v).toList, l'.scopeOf.get? (t.outerNode w.node) = some w.outer ∧
      l'.scopeOf.get? (t.scopeNode w.node) = some w.inner := by
  intro w hw
  rw [hv, Array.toList_push, List.mem_append, List.mem_singleton] at hw
  rcases hw with hw | rfl
  · exact ⟨hkeep _ _ (h.visit w hw).1, hkeep _ _ (h.visit w hw).2⟩
  · exact ⟨houter, hinner⟩

include ht hn in
/-- A node that opens no scope is in the scope around it. -/
theorem scopeNode_of_passed (hk : t.scopeOpened? n = none) : t.scopeNode n = t.outerNode n := by
  rw [scopeNode_eq ht hn]
  split
  · rename_i hs
    obtain rfl : n = t.root := by simpa [isScope, hk] using hs
    exact (outerNode_root ht).symm
  · rfl

include ht h hn ho in
theorem laidOut_pass (hk : t.scopeOpened? n = none) :
    LaidOut t { l with visits := l.visits.push ⟨n, outer, outer⟩ } (visited ++ [n]) := by
  have hsame : (visited ++ [n]).filter (opened t) = visited.filter (opened t) := by
    simp [opened, hk]
  exact {
    scopes := by
      change Scopes l.analysis t _
      rw [hsame]
      exact h.scopes
    enclosed := hsame ▸ h.enclosed
    live := h.live
    blank := h.blank
    nodes := by simp [h.nodes]
    visit := h.visit_push l rfl (fun _ _ hm => hm) ho ((scopeNode_of_passed ht hn hk).symm ▸ ho) }

include h hn ho in
theorem laidOut_open (hk : t.scopeOpened? n = some kind) (hnew : n ∉ visited)
    (hinner : t.scopeNode n = n) :
    LaidOut t { l.openScope outer n kind with
      visits := (l.openScope outer n kind).visits.push ⟨n, outer, l.scopes.size⟩ } (visited ++ [n]) ∧
      ∀ m s, l.scopeOf.get? m = some s → (l.openScope outer n kind).scopeOf.get? m = some s := by
  have hroot : n ≠ t.root := fun hr => by simp [scopeOpened?, hr] at hk
  have hns : n ∉ t.root :: visited.filter (opened t) := by
    simp [hroot, hnew]
  have hkeep : ∀ m s, l.scopeOf.get? m = some s → (l.openScope outer n kind).scopeOf.get? m = some s :=
    fun _ _ => scopeOf_openScope_old h.scopes hns
  have hself : (l.openScope outer n kind).scopeOf.get? n = some l.scopes.size := by
    rw [scopeOf_openScope, if_pos rfl]
  have hmore : t.root :: (visited ++ [n]).filter (opened t) =
      t.root :: visited.filter (opened t) ++ [n] := by
    simp [opened, hroot, hk]
  refine ⟨⟨?_, ?_, ?_, ?_, by simp [openScope, h.nodes], ?_⟩, hkeep⟩
  · rw [hmore]
    exact scopes_openScope h.scopes hns h.enclosed h.live hn hroot hk ho
  · rw [hmore]
    intro m hm hmr
    rcases List.mem_append.mp hm with hm | hm
    · exact List.mem_append_left _ (h.enclosed m hm hmr)
    · rw [List.mem_singleton.mp hm]
      exact List.mem_append_left _ ((h.scopes.mem_iff _).mpr ⟨_, ho⟩)
  · intro s hs
    change (l.openScope outer n kind).scopeOf.get?
      ((l.openScope outer n kind).analysis.scope s).node = some s
    rcases Nat.lt_succ_iff_lt_or_eq.mp (size_openScope l outer n kind ▸ hs) with hs | rfl
    · rw [node_openScope hs]
      exact hkeep _ _ (h.live s hs)
    · rw [scope_openScope_new]
      exact hself
  · intro s
    change ((l.openScope outer n kind).analysis.scope s).names = {}
    rw [scope_openScope]
    split_ifs
    · rfl
    · exact h.blank s
    · exact h.blank s
  · exact h.visit_push (l.openScope outer n kind) rfl hkeep (hkeep _ _ ho) (by rw [hinner]; exact hself)

end Entering

theorem laidOut_enter (ht : t.Consistent) (h : LaidOut t l visited) (hn : t.Below t.root n)
    (hnew : n ∉ visited) (ho : l.scopeOf.get? (t.outerNode n) = some outer) {inner : ScopeId} {l' : Layout}
    (he : l.enter t outer n = (inner, l')) :
    LaidOut t { l' with visits := l'.visits.push ⟨n, outer, inner⟩ } (visited ++ [n]) ∧
      l'.scopeOf.get? (t.scopeNode n) = some inner ∧
      ∀ m s, l.scopeOf.get? m = some s → l'.scopeOf.get? m = some s := by
  rw [enter_eq] at he
  cases hk : t.scopeOpened? n with
  | none =>
    rw [hk] at he
    obtain ⟨rfl, rfl⟩ := Prod.mk.inj he
    exact ⟨laidOut_pass ht h hn ho hk, (scopeNode_of_passed ht hn hk).symm ▸ ho, fun _ _ hm => hm⟩
  | some kind =>
    rw [hk] at he
    obtain ⟨rfl, rfl⟩ := Prod.mk.inj he
    have hinner : t.scopeNode n = n := scopeNode_of_isScope ht hn (by simp [isScope, hk])
    obtain ⟨hlaid, hkeep⟩ := laidOut_open h hn ho hk hnew hinner
    exact ⟨hlaid, by rw [hinner, scopeOf_openScope, if_pos rfl], hkeep⟩

theorem laidOut_extend (ht : t.Consistent) (fuel : Nat) : ∀ {l : Layout} {visited : List NodeId}
    {outer : ScopeId} {n : NodeId}, LaidOut t l visited → t.Below t.root n →
    l.scopeOf.get? (t.outerNode n) = some outer → (visited ++ t.descend fuel n).Nodup →
    LaidOut t (extend t fuel outer l n) (visited ++ t.descend fuel n) ∧
      ∀ m s, l.scopeOf.get? m = some s → (extend t fuel outer l n).scopeOf.get? m = some s := by
  induction fuel with
  | zero =>
    intro l visited outer n h _ _ _
    simpa [extend, descend] using h
  | succ fuel ih =>
    intro l visited outer n h hn ho hnd
    rw [descend, ← List.singleton_append, ← List.append_assoc] at hnd ⊢
    have hnew : n ∉ visited := fun hin =>
      (List.nodup_append.mp (List.nodup_append.mp hnd).1).2.2 n hin n (List.mem_singleton_self n) rfl
    obtain ⟨inner, l', he⟩ : ∃ inner l', l.enter t outer n = (inner, l') := ⟨_, _, rfl⟩
    obtain ⟨h', hinner, hkeep⟩ := laidOut_enter ht h hn hnew ho he
    -- the children one after the other, all inside the scope of `n`
    have children : ∀ (cs : List NodeId) {l : Layout} {visited : List NodeId}, LaidOut t l visited →
        (∀ c ∈ cs, t.parent c = some n) → l.scopeOf.get? (t.scopeNode n) = some inner →
        (visited ++ cs.flatMap (t.descend fuel)).Nodup →
        LaidOut t (cs.foldl (extend t fuel inner) l) (visited ++ cs.flatMap (t.descend fuel)) ∧
          ∀ m s, l.scopeOf.get? m = some s →
            (cs.foldl (extend t fuel inner) l).scopeOf.get? m = some s := by
      intro cs
      induction cs with
      | nil =>
        intro l visited h _ _ _
        simpa using h
      | cons c cs ihcs =>
        intro l visited h hcs hin hnd
        rw [List.flatMap_cons, ← List.append_assoc] at hnd ⊢
        have hp := hcs c List.mem_cons_self
        obtain ⟨h1, hkeep1⟩ := ih h (.step hp hn) (by rwa [outerNode_child hp]) (List.nodup_append.mp hnd).1
        obtain ⟨h2, hkeep2⟩ := ihcs h1 (fun d hd => hcs d (List.mem_cons_of_mem c hd)) (hkeep1 _ _ hin) hnd
        exact ⟨h2, fun m s hm => hkeep2 m s (hkeep1 m s hm)⟩
    obtain ⟨h2, hkeep2⟩ := children (t.children n) h' (fun c hc => (ht.mem_children n c).mp hc) hinner hnd
    rw [extend, he]
    exact ⟨h2, fun m s hm => hkeep2 m s (hkeep m s hm)⟩

/-- The layout that a crawl starts from: the scope of the root. -/
theorem laidOut_start (t : Tree) :
    LaidOut t { scopes := #[{ node := t.root, kind := .program }]
                scopeOf := (Table.mk []).insert t.root Analysis.program
                visits := #[] } [] := by
  have hget : ∀ m s, ((Table.mk []).insert t.root Analysis.program).get? m = some s →
      m = t.root ∧ s = 0 := by
    intro m s hm
    rw [Table.get?_insert] at hm
    split at hm
    · exact ⟨Eq.symm ‹_›, (Option.some.inj hm).symm⟩
    · cases hm
  have hroot : ((Table.mk []).insert t.root Analysis.program).get? t.root = some Analysis.program := by
    rw [Table.get?_insert, if_pos rfl]
  have hzero : ∀ s < 1, s = 0 := fun s hs => Nat.lt_one_iff.mp hs
  refine ⟨?_, ?_, ?_, ?_, rfl, fun v hv => absurd hv (List.not_mem_nil)⟩
  · refine {
      nodup := List.nodup_singleton _
      attached := fun m hm => ?_
      mem_iff := fun m => ?_, lt := fun hm => ?_, node := fun hm => ?_
      unique := fun s hs s' hs' _ => (hzero s hs).trans (hzero s' hs').symm
      kind := fun hm => ?_, root := hroot, parent_root := rfl
      parent := fun hm hmr => absurd (hget _ _ hm).1 hmr
      children := fun hm => ?_, child := fun hm c hc => ?_ }
    · obtain rfl : m = t.root := by simpa using hm
      exact ⟨.refl, isScope_root⟩
    · simp only [List.filter_nil, List.mem_singleton, analysis]
      refine ⟨?_, fun h => h.elim fun s hs => (hget m s hs).1⟩
      rintro rfl
      exact ⟨_, hroot⟩
    · obtain ⟨rfl, rfl⟩ := hget _ _ hm
      exact Nat.zero_lt_one
    · obtain ⟨rfl, rfl⟩ := hget _ _ hm
      rfl
    · obtain ⟨rfl, rfl⟩ := hget _ _ hm
      exact scopeKind_root.symm
    · obtain ⟨rfl, rfl⟩ := hget _ _ hm
      simp [analysis, Analysis.scope]
    · obtain ⟨rfl, rfl⟩ := hget _ _ hm
      exact absurd hc List.not_mem_nil
  · intro m hm hmr
    exact absurd (by simpa using hm) hmr
  · intro s hs
    obtain rfl := hzero s hs
    exact hroot
  · intro s
    cases s <;> rfl

theorem laidOut_ofTree (ht : t.Consistent) : LaidOut t (ofTree t) t.walk := by
  have hroot : ((Table.mk []).insert t.root Analysis.program).get? (t.outerNode t.root) =
      some Analysis.program := by
    rw [outerNode_root ht, Table.get?_insert, if_pos rfl]
  have hnd : ([] ++ t.descend t.size t.root).Nodup := walk_nodup ht
  exact (laidOut_extend ht t.size (laidOut_start t) .refl hroot hnd).1

end Layout
end DeadCode
