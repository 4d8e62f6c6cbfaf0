import DeadCode.Proofs.Names.Following

/-!
Where the constructs of bindings stand. An analysis is `Sited` in a tree if the construct of each of its
bindings is of the right kind and in the right place as long as it is attached. A crawl is
(`sited_crawl`), and no cut, closed or not, changes that (`Sited.subtract`).
-/

namespace DeadCode

open DeadCode.Tree

/-- The place of a construct, by what introduced the binding. -/
def Binding.Placed (b : Binding) (t : Tree) : Prop :=
  match b.construct with
  | .declarator => t.kind b.path = .variableDeclarator
  | .function => t.kind b.path = .functionDeclaration ∨ t.kind b.path = .generatorFunctionDeclaration
  | .importSpecifier => t.kind b.path = .importSpecifier ∧
      ∃ list, t.parent b.path = some list ∧ t.kind list = .namedImports
  | .importDefault => t.kind b.path = .identifier ∧ ∃ clause statement, t.parent b.path = some clause ∧
      t.kind clause = .importClause ∧ t.parent clause = some statement ∧ t.kind statement = .importStatement
  | .other => True

/-- Every entry of a name table names a binding of the store. -/
def Analysis.NamesBound (a : Analysis) : Prop :=
  ∀ s, ∀ e ∈ (a.scope s).names.entries, e.2 < a.bindings.size

structure Sited (a : Analysis) (t : Tree) : Prop where
  names_lt : a.NamesBound
  path_lt : ∀ b < a.bindings.size, (a.binding b).path < t.size
  placed : ∀ b < a.bindings.size, t.Below t.root (a.binding b).path → (a.binding b).Placed t

variable {a : Analysis} {t t' : Tree} {q n : NodeId} {gone : List NodeId}

/-! ## After a crawl -/

theorem Binding.placed_of_declaration (ht : t.Consistent) {b : Binding} {d : Declaration NodeId}
    (hd : d ∈ t.declarations) (hpath : b.path = d.path) (hconstruct : b.construct = d.construct) :
    b.Placed t := by
  obtain ⟨m, hd, h⟩ := constructed ht hd
  unfold Binding.Placed
  rw [hpath, hconstruct]
  unfold Visit.Constructed at h
  cases hc : d.construct <;> rw [hc] at h
  case declarator => exact h.2 ▸ h.1
  case function => exact h.2.1 ▸ h.1
  case importSpecifier =>
    obtain ⟨hk, _, list, hlist, hkl⟩ := h
    exact ⟨hk, list, parent_of_namedChild ht hlist, hkl⟩
  case importDefault =>
    obtain ⟨hp, hk, clause, hclause, hkc, hpar⟩ := h
    exact ⟨hp ▸ Visit.identifier_of_import ht hk hd, clause, _, parent_of_namedChild ht hclause, hkc, hpar, hk⟩
  case other => trivial

theorem Recounted.namesBound {a' : Analysis} (h : Recounted a a') (hb : a.NamesBound) : a'.NamesBound := by
  intro s e he
  rw [h.names] at he
  rw [h.bindings_size]
  exact hb s e he

theorem namesBound_resolve (hb : a.NamesBound) (i : NodeId) (s : ScopeId) (n : NodeId) :
    (a.resolve t i s n).NamesBound := by
  unfold Analysis.resolve
  split
  · exact hb
  · exact (recounted_reference a _ n).namesBound hb

theorem namesBound_bind {s : Survey} (hb : s.analysis.NamesBound) (d : Declaration ScopeId) :
    (s.bind t d).analysis.NamesBound := by
  rw [Survey.bind_eq]
  cases hown : s.analysis.own? d.target (t.text d.identifier) with
  | some b => exact (recounted_reference s.analysis b d.identifier).namesBound hb
  | none =>
    intro x e he
    change e.2 < (s.analysis.introduce t d).bindings.size
    rw [bindings_size_introduce]
    rcases mem_names_introduce hown he with he | ⟨_, rfl⟩
    · exact Nat.lt_succ_of_lt (hb x e he)
    · exact Nat.lt_succ_self _

theorem analysis_visit (t : Tree) (s : Survey) (v : Visit ScopeId) : (Survey.visit t s v).analysis =
    ((v.declarationsAt (s.analysis.functionParent v.inner) t).foldl (Survey.bind · t) s).analysis := by
  simp only [Survey.visit]
  split <;> rfl

/-- What the layout has, and binding and resolving a name keep, holds after a crawl. -/
theorem crawl_induction {P : Analysis → Prop} (hstart : P (Layout.ofTree t).analysis)
    (hbind : ∀ {s : Survey}, P s.analysis → ∀ d, P (s.bind t d).analysis)
    (hresolve : ∀ {a : Analysis}, P a → ∀ i s n, P (a.resolve t i s n))
    (hstamp : ∀ {a : Analysis} (version : Option Nat) (crawls : Nat), P a → P { a with version, crawls })
    (a : Analysis) : P (a.crawl t) := by
  have binds : ∀ (ds : List (Declaration ScopeId)) (s : Survey), P s.analysis →
      P (ds.foldl (Survey.bind · t) s).analysis := by
    intro ds
    induction ds with
    | nil => exact fun _ hs => hs
    | cons d ds ih => exact fun s hs => ih _ (hbind hs d)
  have survey : ∀ (vs : List (Visit ScopeId)) (s : Survey), P s.analysis →
      P (vs.foldl (Survey.visit t) s).analysis := by
    intro vs
    induction vs with
    | nil => exact fun _ hs => hs
    | cons v vs ih => exact fun s hs => ih _ (analysis_visit t s v ▸ binds _ s hs)
  have exports : ∀ (es : List (NodeId × ScopeId × NodeId)) (a : Analysis), P a →
      P (es.foldl (fun a e => a.resolve t e.1 e.2.1 e.2.2) a) := by
    intro es
    induction es with
    | nil => exact fun _ ha => ha
    | cons e es ih => exact fun a ha => ih _ (hresolve ha e.1 e.2.1 e.2.2)
  have uses : ∀ (us : List (NodeId × ScopeId)) (a : Analysis), P a →
      P (us.foldl (fun a u => a.resolve t u.1 u.2 u.1) a) := by
    intro us
    induction us with
    | nil => exact fun _ ha => ha
    | cons u us ih => exact fun a ha => ih _ (hresolve ha u.1 u.2 u.1)
  simp only [Analysis.crawl, ← Array.foldl_toList]
  exact hstamp _ _ (uses _ _ (exports _ _ (survey _ _ hstart)))

theorem namesBound_crawl (ht : t.Consistent) (a : Analysis) : (a.crawl t).NamesBound :=
  crawl_induction
    (fun s e he => by
      rw [(Layout.laidOut_ofTree ht).blank s] at he
      exact absurd he List.not_mem_nil)
    namesBound_bind namesBound_resolve (fun _ _ h => h) a

theorem sited_crawl (ht : t.Consistent) (a : Analysis) : Sited (a.crawl t) t := by
  have hr := reflects_crawl ht a
  refine ⟨namesBound_crawl ht a, hr.path_lt, fun b hb hroot => ?_⟩
  obtain ⟨d, hd, hid⟩ := hr.live b hb hroot
  have hdesc := (hr.records.describes hd hb hid).1
  exact Binding.placed_of_declaration ht (mem_declarations_of_binding hd) hdesc.path hdesc.construct

/-! ## After a cut -/

theorem Binding.Placed.cut (ht : t.Consistent) (h : Cut t t' q n gone) {b : Binding} (hb : b.Placed t)
    (hst : Stays t gone b.path) : b.Placed t' := by
  have hk := h.kind_eq _ (hst.lt_size ht)
  have hp := h.parent_stays ht hst
  unfold Binding.Placed at hb ⊢
  cases hc : b.construct <;> rw [hc] at hb <;> dsimp only at hb ⊢
  · exact hk.trans hb
  · exact hb.imp hk.trans hk.trans
  · obtain ⟨hkp, list, hlist, hkl⟩ := hb
    exact ⟨hk.trans hkp, list, hp.trans hlist, (h.kind_eq _ (ht.parent_lt hlist)).trans hkl⟩
  · obtain ⟨hkp, clause, statement, hclause, hkc, hstatement, hks⟩ := hb
    have hcst := hst.parent ht hclause
    exact ⟨hk.trans hkp, clause, statement, hp.trans hclause,
      (h.kind_eq _ (ht.parent_lt hclause)).trans hkc, (h.parent_stays ht hcst).trans hstatement,
      (h.kind_eq _ (ht.parent_lt hstatement)).trans hks⟩

theorem names_dropNode (a : Analysis) (n : NodeId) (s : ScopeId) :
    ∀ e ∈ ((a.dropNode n).scope s).names.entries, e ∈ (a.scope s).names.entries := by
  have hdeclaration : ∀ a : Analysis, ∀ e ∈ ((a.dropDeclaration n).scope s).names.entries,
      e ∈ (a.scope s).names.entries := fun a e he => by
    unfold Analysis.dropDeclaration at he
    split at he
    · exact he
    · dsimp only at he
      split at he
      · rw [Analysis.scope_modifyScope] at he
        split at he
        · exact (List.mem_filter.mp he).1
        · exact he
      · exact he
  intro e he
  rw [Analysis.dropNode, (rescoped_dropScope _ n).names] at he
  have he := hdeclaration _ e he
  rwa [(recounted_dropReferences a n).names] at he

theorem names_subtract (a : Analysis) (t : Tree) (n : NodeId) (s : ScopeId) :
    ∀ e ∈ ((a.subtract t n).scope s).names.entries, e ∈ (a.scope s).names.entries :=
  subtract_induction (P := fun a' => ∀ e ∈ (a'.scope s).names.entries, e ∈ (a.scope s).names.entries)
    (fun m _ a' h e he => h e (names_dropNode a' m s e he)) (fun _ h => h) fun _ he => he

theorem Sited.subtract (ht : t.Consistent) (h : Cut t t' q n gone) (hs : Sited a t) (m : NodeId) :
    Sited (a.subtract t' m) t' := by
  have hsame := sameBindings_subtract a t' m
  refine ⟨fun s e he => ?_, fun b hb => ?_, fun b hb hroot => ?_⟩
  · rw [hsame.size]
    exact hs.names_lt s e (names_subtract a t' m s e he)
  · obtain ⟨_, he⟩ := hsame.binding b
    rw [he]
    exact lt_of_lt_of_le (hs.path_lt b (hsame.size ▸ hb)) h.size_le
  · obtain ⟨_, he⟩ := hsame.binding b
    rw [he] at hroot ⊢
    have hb := hsame.size ▸ hb
    have hst : Stays t gone (a.binding b).path := (stays_iff ht h (hs.path_lt b hb)).mpr hroot
    exact Binding.Placed.cut ht h (hs.placed b hb hst.1) hst

end DeadCode
