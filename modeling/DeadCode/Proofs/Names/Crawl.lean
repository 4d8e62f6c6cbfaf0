import DeadCode.Proofs.Names.Constructs
import DeadCode.Proofs.Names.Survey

/-!
What a crawl computes: `reflects_crawl`, the name resolution of the tree. The survey of the walk binds all
declarations (`surveyed_visits`); then exports and uses are resolved in the order of the walk.
-/

namespace DeadCode

open DeadCode.Tree

variable {t : Tree} {l : Layout}

/-- All scopes of a tree, in pre-order. -/
def Tree.scopeNodes (t : Tree) : List NodeId := t.walk.filter t.isScope

/-- The analysis records the scopes and bindings of the tree, and `refs` as its references. Its store may
hold more bindings, of constructs that left the tree. -/
structure Reflects (a : Analysis) (t : Tree) (refs : List (NodeId × NodeId)) : Prop where
  records : Records a t t.scopeNodes t.bindings refs
  path_lt : ∀ b < a.bindings.size, (a.binding b).path < t.size
  live : ∀ b < a.bindings.size, t.Below t.root (a.binding b).path →
    ∃ d ∈ t.bindings, d.identifier = a.identifierOf b

namespace Tree

theorem mem_scopeNodes_iff (ht : t.Consistent) {n : NodeId} :
    n ∈ t.scopeNodes ↔ t.Below t.root n ∧ t.isScope n = true := by
  rw [scopeNodes, List.mem_filter, mem_walk_iff ht]

theorem scopeNodes_eq (ht : t.Consistent) :
    t.scopeNodes = t.root :: t.walk.filter (Layout.opened t) := by
  have hw : t.walk = t.root :: (t.children t.root).flatMap t.walkFrom := walkFrom_eq ht .refl
  have hnd := walk_nodup ht
  rw [hw, List.nodup_cons] at hnd
  have hroot : Layout.opened t t.root = false := by simp [Layout.opened]
  rw [scopeNodes, hw, List.filter_cons_of_pos isScope_root, List.filter_cons_of_neg (by simp [hroot])]
  congr 1
  refine List.filter_congr fun n hn => ?_
  have hne : n ≠ t.root := fun h => hnd.1 (h ▸ hn)
  simp [isScope, Layout.opened, hne]

theorem enclosed_scopeNodes (ht : t.Consistent) : t.Enclosed t.scopeNodes := by
  intro n hn _
  have hat := ((mem_scopeNodes_iff ht).mp hn).1
  exact (mem_scopeNodes_iff ht).mpr ⟨root_below_outerNode ht hat, isScope_outerNode ht hat⟩

/-- A declarer of an attached node does not come after it in the walk. -/
theorem mem_declaring_of_walked (ht : t.Consistent) {pre post : List NodeId} {n : NodeId}
    (hw : t.walk = pre ++ n :: post) :
    n ∈ t.declaring ↔ n ∈ ((pre ++ [n]).flatMap t.declarationsOf).map Declaration.identifier := by
  have hsplit : t.declarations = (pre ++ [n]).flatMap t.declarationsOf ++ post.flatMap t.declarationsOf := by
    rw [declarations, hw, ← List.flatMap_append, List.append_assoc]
    rfl
  rw [declaring, hsplit, List.map_append, List.mem_append]
  refine ⟨fun h => ?_, Or.inl⟩
  rcases h with h | h
  · exact h
  · obtain ⟨d, hd, he⟩ := List.mem_map.mp h
    obtain ⟨m, hm, hd⟩ := List.mem_flatMap.mp hd
    have hb : t.Below m n := he ▸ declarer_below ht hd
    have hpw := walkFrom_pairwise ht (t := t) .refl
    rw [← walk, hw, List.pairwise_append] at hpw
    exact absurd hb ((List.pairwise_cons.mp hpw.2.1).1 m hm)

end Tree

/-! ## The survey -/

/-- The scope of a node in a layout. -/
def Layout.idOf (l : Layout) (n : NodeId) : ScopeId := (l.scopeOf.get? n).getD Analysis.program

/-- The node of a scope in a layout. -/
def Layout.nodeOf (l : Layout) (i : ScopeId) : NodeId := (l.analysis.scope i).node

structure Surveyed (t : Tree) (l : Layout) (s : Survey) (ds : List (Declaration NodeId)) : Prop where
  records : Records s.analysis t t.scopeNodes (t.introducing ds) (t.repeating ds)
  scopeOf : s.analysis.scopeOf = l.scopeOf
  bound : ∀ b < s.analysis.bindings.size, ∃ d ∈ t.introducing ds, d.identifier = s.analysis.identifierOf b
  declaring : ∀ i, i ∈ s.declaring ↔ i ∈ ds.map Declaration.identifier

structure SurveyedWalk (t : Tree) (l : Layout) (s : Survey) (visited : List NodeId) : Prop
    extends Surveyed t l s (visited.flatMap t.declarationsOf) where
  exports : s.exports.toList = visited.flatMap fun n =>
    ((t.visitOf n).exportsAt t).map fun i => (i, l.idOf (t.outerNode n), n)
  uses : s.uses.toList = (visited.filter t.isUse).map fun n => (n, l.idOf (t.scopeNode n))

section Bind

variable {s : Survey} {ds : List (Declaration NodeId)} {d : Declaration ScopeId} {m : NodeId}

theorem surveyed_bind (h : Surveyed t l s ds) (hnew : d.identifier ∉ ds.map Declaration.identifier)
    (hm : l.scopeOf.get? m = some d.target) : Surveyed t l (s.bind t d) (ds ++ [d.toScope m]) := by
  have hm' : s.analysis.scopeOf.get? m = some d.target := h.scopeOf ▸ hm
  have hnd : d.toScope m ∉ ds := fun hin => hnew (List.mem_map.mpr ⟨_, hin, rfl⟩)
  have hown := h.records.own?_map hm' (t.text d.identifier)
  rw [firstOf?_introducing] at hown
  have hfirst : t.firstOf? ds (d.toScope m).target (t.text (d.toScope m).identifier) =
      t.firstOf? ds m (t.text d.identifier) := rfl
  have hdeclaring : ∀ i, i ∈ d.identifier :: s.declaring ↔
      i ∈ (ds ++ [d.toScope m]).map Declaration.identifier := by
    intro i
    rw [List.map_append, List.mem_append, List.mem_cons, h.declaring i, List.map_singleton,
      List.mem_singleton, or_comm]
    rfl
  have hgrow : ∀ e ∈ t.introducing ds, e ∈ t.introducing (ds ++ [d.toScope m]) := by
    intro e he
    rw [introducing_concat hnd]
    exact List.mem_append_left _ he
  rw [Survey.bind_eq]
  cases hb : s.analysis.own? d.target (t.text d.identifier) with
  | some b =>
    rw [hb, Option.map_some] at hown
    obtain ⟨e, he, hid⟩ := Option.map_eq_some_iff.mp hown.symm
    have hlt := (h.records.declared (h.records.own?_declared hm' hb)).1
    refine ⟨?_, h.scopeOf, fun x hx => ?_, hdeclaring⟩
    · rw [introducing_concat hnd, repeating_concat hnd, hfirst, he]
      simpa [hid] using h.records.reference hlt d.identifier
    · have same := recounted_reference s.analysis b d.identifier
      rw [same.bindings_size] at hx
      rw [same.identifierOf]
      obtain ⟨e, he, hid⟩ := h.bound x hx
      exact ⟨e, hgrow e he, hid⟩
  | none =>
    rw [hb, Option.map_none] at hown
    have hnone := Option.map_eq_none_iff.mp hown.symm
    have hfresh : ∀ b < s.analysis.bindings.size, s.analysis.identifierOf b ≠ d.identifier :=
      fun b hb he => by
        obtain ⟨e, hmem, hid⟩ := h.bound b hb
        exact hnew (List.mem_map.mpr ⟨e, (List.mem_filter.mp hmem).1, hid.trans he⟩)
    refine ⟨?_, h.scopeOf, fun x hx => ?_, hdeclaring⟩
    · rw [introducing_concat hnd, repeating_concat hnd, hfirst, hnone]
      simpa using h.records.introduce hfresh hm' hb
    · simp only [bindings_size_introduce] at hx
      rcases Nat.lt_succ_iff_lt_or_eq.mp hx with hx | rfl
      · obtain ⟨e, he, hid⟩ := h.bound x hx
        exact ⟨e, hgrow e he, hid.trans (identifierOf_introduce hx).symm⟩
      · refine ⟨d.toScope m, ?_, (identifierOf_introduce_new (a := s.analysis) (t := t) (d := d)).symm⟩
        rw [introducing_concat hnd, hfirst, hnone]
        exact List.mem_append_right _ (List.mem_singleton_self _)

theorem surveyed_binds (f : ScopeId → NodeId) (new : List (Declaration ScopeId)) :
    ∀ {s : Survey} {ds : List (Declaration NodeId)}, Surveyed t l s ds →
      ((ds ++ new.map (Declaration.rename f)).map Declaration.identifier).Nodup →
      (∀ d ∈ new, l.scopeOf.get? (f d.target) = some d.target) →
      Surveyed t l (new.foldl (Survey.bind · t) s) (ds ++ new.map (Declaration.rename f)) ∧
        (new.foldl (Survey.bind · t) s).exports = s.exports ∧
        (new.foldl (Survey.bind · t) s).uses = s.uses := by
  induction new with
  | nil =>
    intro s ds h _ _
    simpa using h
  | cons d new ih =>
    intro s ds h hnd htarget
    rw [List.map_cons, List.append_cons] at hnd ⊢
    have hd : d.identifier ∉ ds.map Declaration.identifier := fun hin => by
      rw [List.map_append, List.map_append] at hnd
      exact (List.nodup_append.mp (List.nodup_append.mp hnd).1).2.2 _ hin _
        (List.mem_singleton_self _) rfl
    have h1 := surveyed_bind h hd (htarget d List.mem_cons_self)
    obtain ⟨h2, hexports, huses⟩ := ih h1 hnd fun e he => htarget e (List.mem_cons_of_mem d he)
    rw [List.foldl_cons]
    refine ⟨h2, hexports.trans ?_, huses.trans ?_⟩ <;> rw [Survey.bind_eq]

end Bind

section Visit

variable (ht : t.Consistent) (hl : Layout.LaidOut t l t.walk) {s : Survey} {v : Visit ScopeId}

include ht in
/-- The survey hoists to the scope that the tree hoists to. -/
theorem Surveyed.hoist {ds : List (Declaration NodeId)} (h : Surveyed t l s ds) (hv : t.Below t.root v.node)
    (hinner : l.scopeOf.get? (t.scopeNode v.node) = some v.inner) :
    l.scopeOf.get? (t.hoistNode v.node) = some (s.analysis.functionParent v.inner) := by
  have := h.records.scopes.functionParent_eq ht (enclosed_scopeNodes ht) (h.scopeOf ▸ hinner)
  rw [hoistNode_scopeNode ht hv] at this
  exact h.scopeOf ▸ this

include hl in
/-- The declarations of a visit are those of its node, their scopes named by nodes. -/
theorem declarationsAt_visit (hv : v ∈ l.visits.toList) {hoist : ScopeId}
    (hhoist : l.scopeOf.get? (t.hoistNode v.node) = some hoist) :
    (v.declarationsAt hoist t).map (Declaration.rename l.nodeOf) = t.declarationsOf v.node := by
  obtain ⟨houter, hinner⟩ := hl.visit v hv
  have hrename : v.rename l.nodeOf = t.visitOf v.node := by
    simp only [Visit.rename, visitOf, Layout.nodeOf, hl.scopes.node houter, hl.scopes.node hinner]
  rw [Visit.declarationsAt_rename, hrename, Layout.nodeOf, hl.scopes.node hhoist]
  rfl

include ht hl in
/-- What a visit declares belongs to a scope that is laid out. -/
theorem target_visit (hv : v ∈ l.visits.toList) {hoist : ScopeId}
    (hhoist : l.scopeOf.get? (t.hoistNode v.node) = some hoist) {d : Declaration ScopeId}
    (hd : d ∈ v.declarationsAt hoist t) : l.scopeOf.get? (l.nodeOf d.target) = some d.target := by
  obtain ⟨houter, hinner⟩ := hl.visit v hv
  have live {m : NodeId} {i : ScopeId} (hm : l.scopeOf.get? m = some i) : l.scopeOf.get? (l.nodeOf i) = some i := by
    rw [Layout.nodeOf, hl.scopes.node hm, hm]
  rcases Visit.target_of_mem ht hd with he | he | he <;> rw [he]
  · exact live houter
  · exact live hinner
  · exact live hhoist

include ht in
/-- No name is declared twice up to a node of the walk. -/
theorem declared_nodup {pre post : List NodeId} {n : NodeId} (hw : t.walk = pre ++ n :: post) :
    ((pre.flatMap t.declarationsOf ++ t.declarationsOf n).map Declaration.identifier).Nodup := by
  have := declaring_nodup ht
  rw [declaring, declarations, hw, List.flatMap_append, List.flatMap_cons, ← List.append_assoc,
    List.map_append] at this
  exact (List.nodup_append.mp this).1

include ht in
/-- What the survey takes for a use at a node is a use in the tree: the declarations that matter are those
up to the node. -/
theorem isUse_visit {pre post : List NodeId} (hw : t.walk = pre ++ v.node :: post)
    (h : Surveyed t l s ((pre ++ [v.node]).flatMap t.declarationsOf)) :
    ((t.kind v.node).isReference && !s.declaring.contains v.node && t.refers v.node) = t.isUse v.node := by
  have hiff : v.node ∈ s.declaring ↔ v.node ∈ t.declaring :=
    (h.declaring v.node).trans (mem_declaring_of_walked ht hw).symm
  have hcontains : s.declaring.contains v.node = t.declaring.contains v.node := by
    rw [Bool.eq_iff_iff]
    simpa using hiff
  rw [isUse, hcontains]

include ht hl in
/-- One visit of the walk. -/
theorem surveyed_visit {pre post : List NodeId} {n : NodeId} (hw : t.walk = pre ++ n :: post)
    (h : SurveyedWalk t l s pre) (hv : v ∈ l.visits.toList) (hn : v.node = n) :
    SurveyedWalk t l (Survey.visit t s v) (pre ++ [n]) := by
  subst hn
  have hmem : v.node ∈ t.walk := by rw [hw]; exact List.mem_append_right _ List.mem_cons_self
  obtain ⟨houter, hinner⟩ := hl.visit v hv
  have hhoist := h.toSurveyed.hoist ht ((mem_walk_iff ht).mp hmem) hinner
  set hoist := s.analysis.functionParent v.inner
  have hdecls := declarationsAt_visit hl hv hhoist
  obtain ⟨h1, hexports, huses⟩ := surveyed_binds l.nodeOf (v.declarationsAt hoist t) h.toSurveyed
    (by rw [hdecls]; exact declared_nodup ht hw) fun d hd => target_visit ht hl hv hhoist hd
  set s1 := (v.declarationsAt hoist t).foldl (Survey.bind · t) s
  have hds : pre.flatMap t.declarationsOf ++ t.declarationsOf v.node =
      (pre ++ [v.node]).flatMap t.declarationsOf := by
    rw [List.flatMap_append, List.flatMap_singleton]
  rw [hdecls, hds] at h1
  have hexp : (s1.exports ++ ((v.exportsAt t).map fun i => (i, v.outer, v.node)).toArray).toList =
      (pre ++ [v.node]).flatMap fun n =>
        ((t.visitOf n).exportsAt t).map fun i => (i, l.idOf (t.outerNode n), n) := by
    have hexportsAt : v.exportsAt t = (t.visitOf v.node).exportsAt t := rfl
    rw [Array.toList_append, hexports, h.exports, List.flatMap_append, List.flatMap_singleton, hexportsAt]
    simp [Layout.idOf, houter]
  have hvisit : Survey.visit t s v =
      (if t.isUse v.node = true then
        { s1 with
          exports := s1.exports ++ ((v.exportsAt t).map fun i => (i, v.outer, v.node)).toArray
          uses := s1.uses.push (v.node, v.inner) }
      else { s1 with
        exports := s1.exports ++ ((v.exportsAt t).map fun i => (i, v.outer, v.node)).toArray }) := by
    rw [← isUse_visit ht hw h1]
    rfl
  rw [hvisit]
  split
  · rename_i hu
    refine ⟨⟨h1.records, h1.scopeOf, h1.bound, h1.declaring⟩, hexp, ?_⟩
    rw [Array.toList_push, huses, h.uses, List.filter_append, List.filter_singleton, hu]
    simp [Layout.idOf, hinner]
  · rename_i hu
    refine ⟨⟨h1.records, h1.scopeOf, h1.bound, h1.declaring⟩, hexp, ?_⟩
    rw [huses, h.uses, List.filter_append, List.filter_singleton]
    simp [hu]

end Visit

theorem surveyed_visits (ht : t.Consistent) (hl : Layout.LaidOut t l t.walk) (post : List (Visit ScopeId)) :
    ∀ (pre : List (Visit ScopeId)) {s : Survey}, l.visits.toList = pre ++ post →
      SurveyedWalk t l s (pre.map Visit.node) →
      SurveyedWalk t l (post.foldl (Survey.visit t) s) t.walk := by
  induction post with
  | nil =>
    intro pre s hp h
    rw [← hl.nodes, hp, List.append_nil]
    exact h
  | cons v post ih =>
    intro pre s hp h
    have hw : t.walk = pre.map Visit.node ++ v.node :: post.map Visit.node := by
      rw [← hl.nodes, hp, List.map_append, List.map_cons]
    have hv : v ∈ l.visits.toList := by
      rw [hp]
      exact List.mem_append_right _ List.mem_cons_self
    have h1 := surveyed_visit ht hl hw h hv rfl
    refine ih (pre ++ [v]) (by rw [hp, List.append_assoc]; rfl) ?_
    rw [List.map_append]
    exact h1

/-! ## Exports and uses -/

section Resolve

variable {a : Analysis} {ns : List NodeId} {bs : List (Declaration NodeId)} {refs : List (NodeId × NodeId)}

/-- What the occurrence `i` of a name stands for in the scope of `m`, as a reference by `n`. -/
def Tree.refersBy (t : Tree) (bs : List (Declaration NodeId)) (i m n : NodeId) : Option (NodeId × NodeId) :=
  ((t.scopeChain m).findSome? (t.firstOf? bs · (t.text i))).map fun d => (n, d.identifier)

theorem Tree.refersBy_bindings (t : Tree) (i m n : NodeId) :
    t.refersBy t.bindings i m n = (t.resolve? m (t.text i)).map fun d => (n, d.identifier) := by
  simp only [refersBy, resolve?, bindings, firstOf?_introducing]
  rfl

theorem bindings_resolve (a : Analysis) (t : Tree) (i : NodeId) (s : ScopeId) (n : NodeId) :
    (a.resolve t i s n).bindings.size = a.bindings.size ∧
      (a.resolve t i s n).identifierOf = a.identifierOf := by
  unfold Analysis.resolve
  split
  · exact ⟨rfl, rfl⟩
  · rename_i b _
    have same := recounted_reference a b n
    exact ⟨same.bindings_size, funext same.identifierOf⟩

theorem scopeOf_resolve (a : Analysis) (t : Tree) (i : NodeId) (s : ScopeId) (n : NodeId) :
    (a.resolve t i s n).scopeOf = a.scopeOf := by
  unfold Analysis.resolve
  split <;> rfl

theorem Records.resolve (ht : t.Consistent) (h : Records a t ns bs refs) (hc : t.Enclosed ns) {m : NodeId} {s : ScopeId}
    (hs : a.scopeOf.get? m = some s) (i n : NodeId) :
    Records (a.resolve t i s n) t ns bs (refs ++ (t.refersBy bs i m n).toList) := by
  have hmap := h.lookup?_map ht hc hs (t.text i)
  rw [Analysis.resolve, refersBy]
  cases hb : a.lookup? s (t.text i) with
  | none =>
    rw [hb, Option.map_none] at hmap
    rw [Option.map_eq_none_iff.mp hmap.symm]
    simpa using h
  | some b =>
    rw [hb, Option.map_some] at hmap
    obtain ⟨d, hd, hid⟩ := Option.map_eq_some_iff.mp hmap.symm
    have hlt := h.lookup?_lt hc hs hb
    rw [hd]
    simpa [hid] using h.reference hlt n

/-- Resolves occurrences of names one after the other, each in the scope of a node of the layout. -/
def Layout.resolveEach (l : Layout) (t : Tree) (es : List (NodeId × NodeId × NodeId)) (a : Analysis) : Analysis :=
  es.foldl (fun a e => a.resolve t e.1 (l.idOf e.2.1) e.2.2) a

theorem bindings_resolveEach (es : List (NodeId × NodeId × NodeId)) : ∀ a : Analysis,
    (l.resolveEach t es a).bindings.size = a.bindings.size ∧
      (l.resolveEach t es a).identifierOf = a.identifierOf := by
  induction es with
  | nil => exact fun _ => ⟨rfl, rfl⟩
  | cons e es ih =>
    intro a
    obtain ⟨hsize, hid⟩ := bindings_resolve a t e.1 (l.idOf e.2.1) e.2.2
    obtain ⟨hsizes, hids⟩ := ih (a.resolve t e.1 (l.idOf e.2.1) e.2.2)
    exact ⟨hsizes.trans hsize, hids.trans hid⟩

theorem scopeOf_resolveEach (es : List (NodeId × NodeId × NodeId)) : ∀ a : Analysis,
    (l.resolveEach t es a).scopeOf = a.scopeOf := by
  induction es with
  | nil => exact fun _ => rfl
  | cons e es ih => exact fun a => (ih _).trans (scopeOf_resolve ..)

theorem Records.resolveEach (ht : t.Consistent) (hc : t.Enclosed ns) (es : List (NodeId × NodeId × NodeId)) :
    ∀ {a : Analysis} {refs : List (NodeId × NodeId)}, Records a t ns bs refs → a.scopeOf = l.scopeOf →
      (∀ e ∈ es, l.scopeOf.get? e.2.1 = some (l.idOf e.2.1)) →
      Records (l.resolveEach t es a) t ns bs
        (refs ++ es.filterMap fun e => t.refersBy bs e.1 e.2.1 e.2.2) := by
  induction es with
  | nil =>
    intro a refs h _ _
    simpa [Layout.resolveEach] using h
  | cons e es ih =>
    intro a refs h hof hes
    have h1 := h.resolve ht hc (hof ▸ hes e List.mem_cons_self) e.1 e.2.2
    have h2 := ih h1 ((scopeOf_resolve ..).trans hof) fun x hx => hes x (List.mem_cons_of_mem e hx)
    rw [List.filterMap_cons]
    cases hr : t.refersBy bs e.1 e.2.1 e.2.2 <;> simpa [hr, Layout.resolveEach] using h2

end Resolve

/-! ## The crawl -/

theorem Layout.idOf_eq (ht : t.Consistent) (hl : Layout.LaidOut t l t.walk) {m : NodeId}
    (hm : t.Below t.root m) (hs : t.isScope m = true) : l.scopeOf.get? m = some (l.idOf m) := by
  have hmem : m ∈ t.scopeNodes := (mem_scopeNodes_iff ht).mpr ⟨hm, hs⟩
  rw [scopeNodes_eq ht] at hmem
  obtain ⟨s, hs⟩ := (hl.scopes.mem_iff m).mp hmem
  rw [Layout.analysis] at hs
  rw [Layout.idOf, hs]
  rfl

theorem records_layout (ht : t.Consistent) (hl : Layout.LaidOut t l t.walk) :
    Records l.analysis t t.scopeNodes [] [] where
  scopes := scopeNodes_eq ht ▸ hl.scopes
  ledger := ⟨fun b hb => absurd hb (Nat.not_lt_zero b), fun b hb => absurd hb (Nat.not_lt_zero b),
    fun _ => rfl, fun _ b hb => absurd hb List.not_mem_nil⟩
  distinct := fun d hd => absurd hd List.not_mem_nil
  names := fun {n s} _ => by rw [hl.blank s]; rfl
  entry := fun {n s} _ e he => by
    rw [hl.blank s] at he
    exact absurd he List.not_mem_nil
  declared := fun hb => (by cases hb)
  record := fun d hd => absurd hd List.not_mem_nil

theorem Records.stamp {a : Analysis} {ns : List NodeId} {bs : List (Declaration NodeId)}
    {refs : List (NodeId × NodeId)} (h : Records a t ns bs refs) (version : Option Nat) (crawls : Nat) :
    Records { a with version, crawls } t ns bs refs where
  scopes := h.scopes.congr rfl rfl fun s => ⟨_, _, rfl⟩
  ledger := ⟨h.ledger.1, h.ledger.2, h.ledger.3, h.ledger.4⟩
  distinct := h.distinct
  names := h.names
  entry := h.entry
  declared := h.declared
  record := fun d hd => by
    obtain ⟨b, hb, hdesc⟩ := h.record d hd
    exact ⟨b, hb, ⟨hdesc.1, hdesc.2, hdesc.3, hdesc.4, hdesc.5, hdesc.6, hdesc.7, hdesc.8⟩⟩

/-- A binding of the store is described by the declaration of its identifier. -/
theorem Records.describes {a : Analysis} {ns : List NodeId} {bs : List (Declaration NodeId)}
    {refs : List (NodeId × NodeId)} (h : Records a t ns bs refs) {d : Declaration NodeId} (hd : d ∈ bs)
    {b : BindingId} (hb : b < a.bindings.size) (hid : d.identifier = a.identifierOf b) :
    Describes a t (a.binding b) d ∧ a.declared.get? d.identifier = some b := by
  obtain ⟨c, hc, hdesc⟩ := h.record d hd
  obtain ⟨hlt, hcid⟩ := h.declared hc
  obtain rfl := h.ledger.injective c hlt b hb (hcid.trans hid)
  exact ⟨hdesc, hc⟩

theorem mem_declarations_of_binding {d : Declaration NodeId} (hd : d ∈ t.bindings) : d ∈ t.declarations :=
  (List.mem_filter.mp hd).1

theorem reflects_of_bound (ht : t.Consistent) {a : Analysis} {refs : List (NodeId × NodeId)}
    (h : Records a t t.scopeNodes t.bindings refs)
    (hbound : ∀ b < a.bindings.size, ∃ d ∈ t.bindings, d.identifier = a.identifierOf b) :
    Reflects a t refs := by
  refine ⟨h, fun b hb => ?_, fun b hb _ => hbound b hb⟩
  obtain ⟨d, hd, hid⟩ := hbound b hb
  rw [(h.describes hd hb hid).1.path]
  exact (path_attached ht (mem_declarations_of_binding hd)).lt_size ht

/-! What the crawl resolves: a name, the node whose scope it is looked up in, the node that refers. -/

def Tree.exportedNames (t : Tree) : List (NodeId × NodeId × NodeId) :=
  t.walk.flatMap fun n => ((t.visitOf n).exportsAt t).map fun i => (i, t.outerNode n, n)

def Tree.usedNames (t : Tree) : List (NodeId × NodeId × NodeId) :=
  (t.walk.filter t.isUse).map fun n => (n, t.scopeNode n, n)

/-- What the walk of a crawl leaves. -/
def Tree.survey (t : Tree) : Survey :=
  (Layout.ofTree t).visits.toList.foldl (Survey.visit t) { analysis := (Layout.ofTree t).analysis }

section Names

variable (ht : t.Consistent)

include ht

theorem surveyed_survey : SurveyedWalk t (Layout.ofTree t) t.survey t.walk := by
  have hl := Layout.laidOut_ofTree ht
  have hstart : SurveyedWalk t (Layout.ofTree t) { analysis := (Layout.ofTree t).analysis } [] :=
    ⟨⟨records_layout ht hl, rfl, fun b hb => absurd hb (Nat.not_lt_zero b), fun _ => Iff.rfl⟩, rfl, rfl⟩
  exact surveyed_visits ht hl _ [] rfl hstart

theorem exportedNames_live : ∀ e ∈ t.exportedNames,
    (Layout.ofTree t).scopeOf.get? e.2.1 = some ((Layout.ofTree t).idOf e.2.1) := by
  intro e he
  obtain ⟨n, hn, he⟩ := List.mem_flatMap.mp he
  obtain ⟨i, _, rfl⟩ := List.mem_map.mp he
  have hat := (mem_walk_iff ht).mp hn
  exact Layout.idOf_eq ht (Layout.laidOut_ofTree ht) (root_below_outerNode ht hat) (isScope_outerNode ht hat)

theorem usedNames_live : ∀ e ∈ t.usedNames,
    (Layout.ofTree t).scopeOf.get? e.2.1 = some ((Layout.ofTree t).idOf e.2.1) := by
  intro e he
  obtain ⟨n, hn, rfl⟩ := List.mem_map.mp he
  have hat := (mem_walk_iff ht).mp (List.mem_filter.mp hn).1
  exact Layout.idOf_eq ht (Layout.laidOut_ofTree ht) (root_below_scopeNode ht hat) (isScope_scopeNode ht hat)

omit ht in
theorem exported_eq (t : Tree) :
    t.exportedNames.filterMap (fun e => t.refersBy t.bindings e.1 e.2.1 e.2.2) = t.exported := by
  rw [exportedNames, List.filterMap_flatMap, exported]
  refine List.flatMap_congr fun n _ => ?_
  rw [List.filterMap_map, exportedBy]
  exact List.filterMap_congr fun i _ => t.refersBy_bindings i (t.outerNode n) n

omit ht in
theorem used_eq (t : Tree) :
    t.usedNames.filterMap (fun e => t.refersBy t.bindings e.1 e.2.1 e.2.2) = t.used := by
  rw [usedNames, List.filterMap_map, used]
  exact List.filterMap_congr fun n _ => t.refersBy_bindings n (t.scopeNode n) n

/-- A crawl resolves the exported names first, then the used ones. -/
theorem crawl_eq (a : Analysis) : a.crawl t =
    { (Layout.ofTree t).resolveEach t t.usedNames
        ((Layout.ofTree t).resolveEach t t.exportedNames t.survey.analysis) with
      version := some t.version, crawls := a.crawls + 1 } := by
  have hsurvey := surveyed_survey ht
  have hexports : t.survey.exports.toList =
      t.exportedNames.map fun e => (e.1, (Layout.ofTree t).idOf e.2.1, e.2.2) := by
    rw [hsurvey.exports, exportedNames, List.map_flatMap]
    exact List.flatMap_congr fun n _ => by rw [List.map_map]; rfl
  have huses : t.survey.uses.toList = t.usedNames.map fun e => (e.1, (Layout.ofTree t).idOf e.2.1) := by
    rw [hsurvey.uses, usedNames, List.map_map]
    rfl
  have hexport (b : Analysis) : (Layout.ofTree t).resolveEach t t.exportedNames b =
      t.survey.exports.toList.foldl (fun a e => a.resolve t e.1 e.2.1 e.2.2) b := by
    rw [hexports, List.foldl_map, Layout.resolveEach]
  have huse (b : Analysis) : (Layout.ofTree t).resolveEach t t.usedNames b =
      t.survey.uses.toList.foldl (fun a u => a.resolve t u.1 u.2 u.1) b := by
    rw [huses, List.foldl_map, Layout.resolveEach, usedNames, List.foldl_map, List.foldl_map]
  rw [huse, hexport, survey]
  simp only [Analysis.crawl, Array.foldl_toList]
  rfl

theorem records_crawl (a : Analysis) :
    Records (a.crawl t) t t.scopeNodes t.bindings t.references ∧
      ∀ b < (a.crawl t).bindings.size, ∃ d ∈ t.bindings, d.identifier = (a.crawl t).identifierOf b := by
  have hsurvey := surveyed_survey ht
  have hexports := hsurvey.records.resolveEach ht (enclosed_scopeNodes ht) t.exportedNames hsurvey.scopeOf
    (exportedNames_live ht)
  have huses := hexports.resolveEach ht (enclosed_scopeNodes ht) t.usedNames
    ((scopeOf_resolveEach ..).trans hsurvey.scopeOf) (usedNames_live ht)
  change Records _ t t.scopeNodes t.bindings (t.redeclared ++
    (t.exportedNames.filterMap fun e => t.refersBy t.bindings e.1 e.2.1 e.2.2) ++
    t.usedNames.filterMap fun e => t.refersBy t.bindings e.1 e.2.1 e.2.2) at huses
  rw [exported_eq, used_eq] at huses
  rw [crawl_eq ht a]
  refine ⟨huses.stamp _ _, fun b hb => ?_⟩
  -- resolving adds no binding, so each is one of the survey's
  obtain ⟨hsize, hid⟩ := bindings_resolveEach (l := Layout.ofTree t) (t := t) t.exportedNames t.survey.analysis
  obtain ⟨hsize', hid'⟩ := bindings_resolveEach (l := Layout.ofTree t) (t := t) t.usedNames
    ((Layout.ofTree t).resolveEach t t.exportedNames t.survey.analysis)
  obtain ⟨d, hd, hdi⟩ := hsurvey.bound b (lt_of_lt_of_eq hb (hsize'.trans hsize))
  exact ⟨d, hd, hdi.trans (congrFun (hid'.trans hid) b).symm⟩

end Names

/-- A crawl records the name resolution of the tree. -/
theorem reflects_crawl (ht : t.Consistent) (a : Analysis) : Reflects (a.crawl t) t t.references :=
  reflects_of_bound ht (records_crawl ht a).1 (records_crawl ht a).2

end DeadCode
