import DeadCode.Crawl
import DeadCode.Subtraction

/-!
The store of an analysis: what each change of it does to the scopes, the bindings and the tables.
-/

namespace DeadCode.Analysis

variable (a : Analysis)

theorem scope_modifyScope (s s' : ScopeId) (f : Scope → Scope) : (a.modifyScope s f).scope s' =
    if s = s' ∧ s' < a.scopes.size then f (a.scope s') else a.scope s' := by
  unfold scope modifyScope
  by_cases h : s' < a.scopes.size
  · by_cases e : s = s' <;> simp [Array.getD, h, e, Array.getElem_modify]
  · simp [Array.getD, h]

theorem binding_modifyBinding (b b' : BindingId) (f : Binding → Binding) :
    (a.modifyBinding b f).binding b' =
      if b = b' ∧ b' < a.bindings.size then f (a.binding b') else a.binding b' := by
  unfold binding modifyBinding
  by_cases h : b' < a.bindings.size
  · by_cases e : b = b' <;> simp [Array.getD, h, e, Array.getElem_modify]
  · simp [Array.getD, h]

theorem scope_eq_default {s : ScopeId} (h : a.scopes.size ≤ s) : a.scope s = default := by
  simp [scope, Array.getD, Nat.not_lt.mpr h]

@[simp] theorem scopes_size_modifyScope (s : ScopeId) (f : Scope → Scope) :
    (a.modifyScope s f).scopes.size = a.scopes.size := by
  simp [modifyScope]

@[simp] theorem bindings_size_modifyBinding (b : BindingId) (f : Binding → Binding) :
    (a.modifyBinding b f).bindings.size = a.bindings.size := by
  simp [modifyBinding]

@[simp] theorem scope_modifyBinding (b : BindingId) (f : Binding → Binding) (s : ScopeId) :
    (a.modifyBinding b f).scope s = a.scope s := rfl

@[simp] theorem binding_modifyScope (s : ScopeId) (f : Scope → Scope) (b : BindingId) :
    (a.modifyScope s f).binding b = a.binding b := rfl

theorem getD_push {α : Type} (xs : Array α) (x d : α) (i : Nat) :
    (xs.push x).getD i d = if i = xs.size then x else xs.getD i d := by
  simp only [Array.getD_eq_getD_getElem?, Array.getElem?_push]
  split <;> simp_all

end DeadCode.Analysis
