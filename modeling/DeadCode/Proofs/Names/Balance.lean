import DeadCode.Proofs.Names.Crawl
import DeadCode.Proofs.Names.Following

/-!
Subtractions that look before they take. A subtraction takes members out of two sorts of lists, the references of a
binding and the children of a scope; `subtract?` has no result where a member is missing. Main statement:
`Balanced.subtract?_eq_some`, in an analysis whose tables agree with each other no member is missing, whatever is
subtracted. The tables of a crawl agree (`balanced_crawl`).
-/

namespace DeadCode

open DeadCode.Tree

namespace Analysis

/-- As `unreference`, if `n` counts towards the binding. -/
def unreference? (n : NodeId) (a : Analysis) (b : BindingId) : Option Analysis :=
  if n ∈ (a.binding b).references then some (unreference n a b) else none

def dropReferences? (a : Analysis) (n : NodeId) : Option Analysis :=
  ((a.resolved.get? n).getD []).foldlM (unreference? n) { a with resolved := a.resolved.erase n }

/-- As `dropScope`, if the scope around the one of `n` lists it. -/
def dropScope? (a : Analysis) (n : NodeId) : Option Analysis :=
  match a.scopeOf.get? n with
  | none => some a
  | some s =>
    match (a.scope s).parent with
    | none => some (a.dropScope n)
    | some p => if s ∈ (a.scope p).children then some (a.dropScope n) else none

/-- The declaration of a node is taken out of tables only, where a missing key does no harm. -/
def dropNode? (a : Analysis) (n : NodeId) : Option Analysis :=
  (a.dropReferences? n).bind fun a => (a.dropDeclaration n).dropScope? n

def subtract? (a : Analysis) (t : Tree) (removed : NodeId) : Option Analysis :=
  if a.version.map (· + 1) = some t.version then
    ((t.walkFrom removed).foldlM dropNode? a).map fun a => { a with version := some t.version }
  else some a

/-- A reference is counted as often with the binding as with the node, and every scope is listed by the scope
around it. -/
structure Balanced (a : Analysis) : Prop where
  resolved_lt : ∀ n, ∀ b ∈ (a.resolved.get? n).getD [], b < a.bindings.size
  count_eq : ∀ n, ∀ b < a.bindings.size,
    ((a.resolved.get? n).getD []).count b = (a.binding b).references.count n
  injective : ∀ {n m s}, a.scopeOf.get? n = some s → a.scopeOf.get? m = some s → n = m
  listed : ∀ {n s p}, a.scopeOf.get? n = some s → (a.scope s).parent = some p → s ∈ (a.scope p).children

end Analysis

open Analysis

variable {a : Analysis} {t : Tree} {n : NodeId}

/-! ## The tables after a crawl -/

theorem balanced_empty : Balanced {} where
  resolved_lt _ _ hb := absurd hb List.not_mem_nil
  count_eq _ _ hb := absurd hb (Nat.not_lt_zero _)
  injective hn := by cases hn
  listed hn := by cases hn

theorem Records.balanced {ns : List NodeId} {bs : List (Declaration NodeId)} {refs : List (NodeId × NodeId)}
    (h : Records a t ns bs refs) (hc : t.Enclosed ns) : Balanced a where
  resolved_lt := h.ledger.resolved_lt
  count_eq n _ hb := h.ledger.count_resolved n hb
  injective hn hm := (h.scopes.node hn).symm.trans (h.scopes.node hm)
  listed := by
    intro n s p hn hp
    by_cases hroot : n = t.root
    · subst hroot
      obtain rfl := Option.some.inj (hn.symm.trans h.scopes.root)
      rw [h.scopes.parent_root] at hp
      cases hp
    · obtain ⟨q, _, hq, hparent⟩ := h.scopes.parent_live hc hn hroot
      obtain rfl := Option.some.inj (hp.symm.trans hparent)
      have hmem : n ∈ (a.scope p).children.map fun c => (a.scope c).node := by
        rw [h.scopes.children hq]
        exact List.mem_filter.mpr ⟨h.scopes.mem_of_some hn, by simpa using hroot⟩
      -- the listed scope of `n` is the one that is looked up
      obtain ⟨c, hc, hnode⟩ := List.mem_map.mp hmem
      have hlive := h.scopes.child hq c hc
      rw [hnode, hn] at hlive
      exact Option.some.inj hlive ▸ hc

theorem balanced_crawl (ht : t.Consistent) (a : Analysis) : Balanced (a.crawl t) :=
  (records_crawl ht a).1.balanced (enclosed_scopeNodes ht)

/-! ## Dropping a node -/

/-- A reference is found as long as there are as many as entries to be undone. -/
theorem unreferences?_eq_some (n : NodeId) (ids : List BindingId) : ∀ {a : Analysis},
    (∀ b ∈ ids, b < a.bindings.size ∧ ids.count b ≤ (a.binding b).references.count n) →
    ids.foldlM (unreference? n) a = some (ids.foldl (unreference n) a) := by
  induction ids with
  | nil => exact fun _ => rfl
  | cons b ids ih =>
    intro a h
    obtain ⟨hlt, hcount⟩ := h b List.mem_cons_self
    rw [List.count_cons_self] at hcount
    have hmem : n ∈ (a.binding b).references := List.count_pos_iff.mp (by omega)
    have hhead : unreference? n a b = some (unreference n a b) := if_pos hmem
    rw [List.foldlM_cons, hhead]
    refine ih fun x hx => ?_
    obtain ⟨hxlt, hxcount⟩ := h x (List.mem_cons_of_mem b hx)
    rw [(recounted_unreference n a b).bindings_size, references_unreference]
    refine ⟨hxlt, ?_⟩
    by_cases he : b = x
    · subst he
      rw [if_pos ⟨rfl, hlt⟩, List.count_erase_self]
      omega
    · rw [if_neg fun h => he h.1]
      rwa [List.count_cons_of_ne he] at hxcount

namespace Analysis.Balanced

theorem dropReferences?_eq_some (h : Balanced a) (n : NodeId) :
    a.dropReferences? n = some (a.dropReferences n) :=
  unreferences?_eq_some n _ fun b hb => by
    have hlt := h.resolved_lt n b hb
    exact ⟨hlt, le_of_eq (h.count_eq n b hlt)⟩

theorem dropReferences (h : Balanced a) (n : NodeId) : Balanced (a.dropReferences n) := by
  have same := recounted_dropReferences a n
  obtain ⟨_, hresolved, hrefs⟩ := unreference_all n ((a.resolved.get? n).getD [])
    { a with resolved := a.resolved.erase n }
  have hresolved : (a.dropReferences n).resolved = a.resolved.erase n := hresolved
  refine ⟨fun m b hb => ?_, fun m b hb => ?_, ?_, fun {m s p} hm hp => ?_⟩
  · rw [hresolved, Table.get?_erase] at hb
    rw [same.bindings_size]
    split at hb
    · cases hb
    · exact h.resolved_lt m b hb
  · rw [same.bindings_size] at hb
    have hdrop : ((a.dropReferences n).binding b).references =
        (fun l => l.erase n)^[((a.resolved.get? n).getD []).count b] (a.binding b).references := hrefs b hb
    rw [hdrop, Lists.iterate_erase n _ (h.count_eq n b hb).symm, hresolved, Table.get?_erase]
    by_cases he : n = m
    · subst he
      have hnone : n ∉ (a.binding b).references.filter (· ≠ n) := fun hmem => by
        simpa using (List.mem_filter.mp hmem).2
      rw [if_pos rfl, List.count_eq_zero.mpr hnone]
      rfl
    · rw [if_neg he, List.count_filter (by simpa using Ne.symm he)]
      exact h.count_eq m b hb
  · rw [same.scopeOf]
    exact h.injective
  · obtain ⟨_, hs⟩ := same.scope s
    obtain ⟨_, hp'⟩ := same.scope p
    rw [hs] at hp
    rw [hp']
    exact h.listed (same.scopeOf ▸ hm) hp

theorem dropDeclaration (h : Balanced a) (n : NodeId) : Balanced (a.dropDeclaration n) := by
  have same := renamed_dropDeclaration a n
  refine ⟨?_, ?_, ?_, fun {m s p} hm hp => ?_⟩
  · rw [same.resolved, same.bindings]
    exact h.resolved_lt
  · simp only [same.resolved, same.bindings, binding]
    exact h.count_eq
  · rw [same.scopeOf]
    exact h.injective
  · obtain ⟨_, hs⟩ := same.scope s
    obtain ⟨_, hs'⟩ := same.scope p
    rw [hs] at hp
    rw [hs']
    exact h.listed (same.scopeOf ▸ hm) hp

theorem dropScope?_eq_some (h : Balanced a) (n : NodeId) : a.dropScope? n = some (a.dropScope n) := by
  unfold dropScope?
  split
  · rename_i hn
    rw [Analysis.dropScope, hn]
  · rename_i s hs
    split
    · rfl
    · rename_i p hp
      exact if_pos (h.listed hs hp)

theorem dropScope (h : Balanced a) (n : NodeId) : Balanced (a.dropScope n) := by
  have same := rescoped_dropScope a n
  have hold {m i} (hm : (a.dropScope n).scopeOf.get? m = some i) : a.scopeOf.get? m = some i :=
    (scopeOf_dropScope_iff.mp hm).2
  refine ⟨?_, ?_, fun hm hm' => h.injective (hold hm) (hold hm'), fun {m i q} hm hq => ?_⟩
  · rw [same.resolved, same.bindings]
    exact h.resolved_lt
  · simp only [same.resolved, same.bindings, binding]
    exact h.count_eq
  · rw [same.parent] at hq
    have hmem : i ∈ (a.scope q).children := h.listed (hold hm) hq
    cases hn : a.scopeOf.get? n with
    | none => rwa [dropScope_of_none hn]
    | some s =>
      -- only the scope of `n` left the list of its parent
      have his : i ≠ s := fun he => (scopeOf_dropScope_iff.mp hm).1 (h.injective hn (he ▸ hold hm))
      cases hp : (a.scope s).parent with
      | none =>
        rw [dropScope_of_orphan hn hp]
        exact hmem
      | some p =>
        rw [scope_dropScope hn hp]
        split
        · exact (List.mem_erase_of_ne his).mpr hmem
        · exact hmem

theorem dropNode?_eq_some (h : Balanced a) (n : NodeId) : a.dropNode? n = some (a.dropNode n) := by
  rw [dropNode?, h.dropReferences?_eq_some, Option.bind_some]
  exact ((h.dropReferences n).dropDeclaration n).dropScope?_eq_some n

theorem dropNode (h : Balanced a) (n : NodeId) : Balanced (a.dropNode n) :=
  ((h.dropReferences n).dropDeclaration n).dropScope n

/-! ## Subtracting a subtree -/

theorem dropNodes?_eq_some (nodes : List NodeId) : ∀ {a : Analysis}, Balanced a →
    nodes.foldlM dropNode? a = some (nodes.foldl Analysis.dropNode a) ∧
      Balanced (nodes.foldl Analysis.dropNode a) := by
  induction nodes with
  | nil => exact fun h => ⟨rfl, h⟩
  | cons n nodes ih =>
    intro a h
    rw [List.foldlM_cons, h.dropNode?_eq_some]
    exact ih (h.dropNode n)

theorem subtract?_eq_some (h : Balanced a) (t : Tree) (n : NodeId) : a.subtract? t n = some (a.subtract t n) := by
  unfold subtract? Analysis.subtract
  split
  · rw [(dropNodes?_eq_some _ h).1]
    rfl
  · rfl

theorem subtract (h : Balanced a) (t : Tree) (n : NodeId) : Balanced (a.subtract t n) := by
  unfold Analysis.subtract
  split
  · obtain ⟨hlt, hcount, hinjective, hlisted⟩ := (dropNodes?_eq_some (t.walkFrom n) h).2
    exact ⟨hlt, hcount, hinjective, hlisted⟩
  · exact h

end Analysis.Balanced

end DeadCode
