import DeadCode.Proofs.Names.Sited

/-!
What a subtraction cannot undo. It counts no crawl, and no revision goes back (`worn_subtract`). A binding that
loses its last reference bumps the revision of its own scope, in whose table it stands
(`Analysis.Owned`): so while the revision of a scope stays, nothing there comes to lack references
(`unreferenced_subtract`).
-/

namespace DeadCode

open DeadCode.Tree

/-- `a'` came from `a` by taking things out. -/
structure Worn (a a' : Analysis) : Prop where
  crawls : a'.crawls = a.crawls
  size : a'.scopes.size = a.scopes.size
  scope : ∀ b, (a'.binding b).scope = (a.binding b).scope
  revision : ∀ s, (a.scope s).revision ≤ (a'.scope s).revision
  lost : ∀ b, (a.binding b).scope < a.scopes.size → (a.binding b).references ≠ [] →
    (a'.binding b).references = [] →
    (a.scope (a.binding b).scope).revision < (a'.scope (a.binding b).scope).revision

variable {a a' a'' : Analysis} {t : Tree} {n : NodeId} {s : ScopeId}

namespace Worn

theorem refl (a : Analysis) : Worn a a :=
  ⟨rfl, rfl, fun _ => rfl, fun _ => Nat.le_refl _, fun _ _ hsome hnone => absurd hnone hsome⟩

theorem trans (h : Worn a a') (h' : Worn a' a'') : Worn a a'' where
  crawls := h'.crawls.trans h.crawls
  size := h'.size.trans h.size
  scope b := (h'.scope b).trans (h.scope b)
  revision s := Nat.le_trans (h.revision s) (h'.revision s)
  lost b hb hsome hnone := by
    by_cases hmid : (a'.binding b).references = []
    · exact Nat.lt_of_lt_of_le (h.lost b hb hsome hmid) (h'.revision _)
    · have hlt := h'.lost b (by rwa [h.scope, h.size]) hmid hnone
      rw [h.scope] at hlt
      exact Nat.lt_of_le_of_lt (h.revision _) hlt

/-- Nothing but tables changed. -/
theorem of_eq (hcrawls : a'.crawls = a.crawls) (hsize : a'.scopes.size = a.scopes.size)
    (hbindings : a'.bindings = a.bindings) (hrevision : ∀ s, (a'.scope s).revision = (a.scope s).revision) :
    Worn a a' := by
  have hb : ∀ b, a'.binding b = a.binding b := fun b => by rw [Analysis.binding, hbindings, Analysis.binding]
  exact ⟨hcrawls, hsize, fun b => by rw [hb], fun s => (hrevision s).ge, fun b _ hsome hnone =>
    absurd (hb b ▸ hnone) hsome⟩

theorem foldl {α : Type} {f : Analysis → α → Analysis} (hf : ∀ a x, Worn a (f a x)) (l : List α) :
    ∀ a, Worn a (l.foldl f a) := by
  induction l with
  | nil => exact refl
  | cons x l ih => exact fun a => (hf a x).trans (ih _)

end Worn

/-! ## One node -/

/-- The revision of a scope counts the bindings of it that are left without references. -/
theorem revision_unreference (n : NodeId) (a : Analysis) (b : BindingId) (s : ScopeId) :
    ((Analysis.unreference n a b).scope s).revision =
      if ((Analysis.unreference n a b).binding b).references = [] ∧ (a.binding b).scope = s ∧ s < a.scopes.size
      then (a.scope s).revision + 1 else (a.scope s).revision := by
  let a₁ := a.modifyBinding b fun d => { d with references := d.references.erase n }
  have hbinding : (Analysis.unreference n a b).binding b = a₁.binding b := by
    simp only [Analysis.unreference]
    split
    · rfl
    · rfl
  have hscope : (a₁.binding b).scope = (a.binding b).scope := by
    rw [Analysis.binding_modifyBinding]
    split
    · rfl
    · rfl
  have hsize : a₁.scopes.size = a.scopes.size := rfl
  have hold : a₁.scope s = a.scope s := rfl
  rw [hbinding]
  change (Analysis.scope (if (a₁.binding b).referenced then a₁ else a₁.modifyScope (a₁.binding b).scope
    fun s => { s with revision := s.revision + 1 }) s).revision = _
  by_cases hrefs : (a₁.binding b).references = []
  · rw [if_neg (by simp [Binding.referenced, hrefs]), Analysis.scope_modifyScope, hscope, hsize, hold]
    by_cases h : (a.binding b).scope = s ∧ s < a.scopes.size
    · rw [if_pos h, if_pos ⟨hrefs, h⟩]
    · rw [if_neg h, if_neg fun h' => h h'.2]
  · rw [if_pos (by simp [Binding.referenced, hrefs]), if_neg fun h => hrefs h.1]
    rfl

theorem worn_unreference (n : NodeId) (a : Analysis) (b : BindingId) :
    Worn a (Analysis.unreference n a b) := by
  have hsame := recounted_unreference n a b
  refine ⟨?_, hsame.scopes_size, fun x => ?_, fun s => ?_, fun x hx hsome hnone => ?_⟩
  · simp only [Analysis.unreference]
    split
    · rfl
    · rfl
  · obtain ⟨_, he⟩ := hsame.binding x
    rw [he]
  · rw [revision_unreference]
    split
    · exact Nat.le_succ _
    · exact Nat.le_refl _
  · -- only the references of `b` change
    by_cases hb : b = x
    · subst hb
      rw [revision_unreference, if_pos ⟨hnone, rfl, hx⟩]
      exact Nat.lt_succ_self _
    · rw [references_unreference, if_neg fun h => hb h.1] at hnone
      exact absurd hnone hsome

theorem worn_dropNode (a : Analysis) (n : NodeId) : Worn a (a.dropNode n) := by
  have hreferences : Worn a (a.dropReferences n) := by
    have h : Worn a { a with resolved := a.resolved.erase n } := .of_eq rfl rfl rfl fun _ => rfl
    exact h.trans (.foldl (worn_unreference n) _ _)
  have hdeclaration : ∀ a : Analysis, Worn a (a.dropDeclaration n) := fun a => by
    have same := renamed_dropDeclaration a n
    refine .of_eq same.crawls same.scopes_size same.bindings fun s => ?_
    obtain ⟨_, hs⟩ := same.scope s
    rw [hs]
  have hscope : ∀ a : Analysis, Worn a (a.dropScope n) := fun a => by
    have same := rescoped_dropScope a n
    refine .of_eq same.crawls same.scopes_size same.bindings fun s => ?_
    obtain ⟨_, hs⟩ := same.scope s
    rw [hs]
  exact hreferences.trans ((hdeclaration _).trans (hscope _))

theorem worn_subtract (a : Analysis) (t : Tree) (n : NodeId) : Worn a (a.subtract t n) :=
  subtract_induction (fun m _ a' h => h.trans (worn_dropNode a' m))
    (fun _ h => h.trans (.of_eq rfl rfl rfl fun _ => rfl)) (.refl a)

/-! ## The scope of a binding -/

/-- Every entry of a name table names a binding of that scope. -/
def Analysis.Owned (a : Analysis) : Prop := ∀ s, ∀ e ∈ (a.scope s).names.entries, (a.binding e.2).scope = s

theorem Recounted.owned (h : Recounted a a') (ho : a.Owned) : a'.Owned := fun s e he => by
  obtain ⟨_, hb⟩ := h.binding e.2
  rw [h.names] at he
  rw [hb]
  exact ho s e he

theorem owned_bind {s : Survey} (hb : s.analysis.NamesBound) (ho : s.analysis.Owned) (d : Declaration ScopeId) :
    (s.bind t d).analysis.Owned := by
  rw [Survey.bind_eq]
  cases hown : s.analysis.own? d.target (t.text d.identifier) with
  | some b => exact (recounted_reference s.analysis b d.identifier).owned ho
  | none =>
    intro x e he
    change ((s.analysis.introduce t d).binding e.2).scope = x
    rw [binding_introduce]
    rcases mem_names_introduce hown he with he | ⟨rfl, rfl⟩
    · rw [if_neg (Nat.ne_of_lt (hb x e he))]
      exact ho x e he
    · rw [if_pos rfl]

theorem owned_crawl (ht : t.Consistent) (a : Analysis) : (a.crawl t).Owned := by
  have hresolve : ∀ {a : Analysis}, a.NamesBound ∧ a.Owned → ∀ i s n,
      (a.resolve t i s n).NamesBound ∧ (a.resolve t i s n).Owned := fun h i s n => by
    refine ⟨namesBound_resolve h.1 i s n, ?_⟩
    unfold Analysis.resolve
    split
    · exact h.2
    · exact (recounted_reference _ _ n).owned h.2
  refine (crawl_induction (P := fun a => a.NamesBound ∧ a.Owned) ?_
    (fun h d => ⟨namesBound_bind h.1 d, owned_bind h.1 h.2 d⟩) hresolve (fun _ _ h => h) a).2
  have hblank := (Layout.laidOut_ofTree ht).blank
  refine ⟨fun s e he => ?_, fun s e he => ?_⟩
  · rw [hblank s] at he
    exact absurd he List.not_mem_nil
  · rw [hblank s] at he
    exact absurd he List.not_mem_nil

theorem Analysis.Owned.subtract (h : a.Owned) (t : Tree) (n : NodeId) : (a.subtract t n).Owned :=
  fun s e he => ((worn_subtract a t n).scope e.2).trans (h s e (names_subtract a t n s e he))

section Unbumped

variable (ho : a.Owned) {s : ScopeId} (hs : ((a.subtract t n).scope s).revision = (a.scope s).revision)

include ho hs

/-- While the revision of a scope stays, no name of its table loses its last reference. -/
theorem referenced_subtract {e : String × BindingId} (he : e ∈ (a.scope s).names.entries)
    (hsome : (a.binding e.2).references ≠ []) : ((a.subtract t n).binding e.2).references ≠ [] := by
  intro hnone
  have hlt : s < a.scopes.size := by
    by_contra hge
    rw [a.scope_eq_default (Nat.not_lt.mp hge)] at he
    exact absurd he List.not_mem_nil
  have hbump := (worn_subtract a t n).lost e.2 (by rwa [ho s e he]) hsome hnone
  rw [ho s e he, hs] at hbump
  exact Nat.lt_irrefl _ hbump

theorem unreferenced_subtract {β : BindingId} (hβ : β ∈ (a.subtract t n).unreferenced s) :
    β ∈ a.unreferenced s := by
  obtain ⟨hown, hnone⟩ := List.mem_filter.mp hβ
  obtain ⟨e, he, rfl⟩ := List.mem_map.mp hown
  have he := names_subtract a t n s e he
  refine List.mem_filter.mpr ⟨List.mem_map_of_mem he, ?_⟩
  by_contra hsome
  simp only [Binding.referenced, Bool.not_not, List.isEmpty_iff] at hnone hsome
  exact referenced_subtract ho hs he hsome hnone

end Unbumped

end DeadCode
