import DeadCode.Proofs.Names.Layout
import DeadCode.Proofs.Tables

/-!
What an analysis records. `Records a t ns bs refs`: the live scopes are those of the nodes `ns`, the name
tables hold the declarations `bs` and the references counted are the pairs `refs` of a referring node and
the identifier of a binding. The look-ups of an analysis are then those of the tree (`own?_map`,
`lookup?_map`, `functionParent_eq`, `enclosing_eq`).
-/

namespace DeadCode

open DeadCode.Tree

/-- A binding record agrees with the declaration that introduced it. -/
structure Describes (a : Analysis) (t : Tree) (b : Binding) (d : Declaration NodeId) : Prop where
  name : b.name = t.text d.identifier
  keyword : b.keyword = d.keyword
  identifier : b.identifier = d.identifier
  path : b.path = d.path
  construct : b.construct = d.construct
  coDeclared : b.coDeclared = d.coDeclared
  scope_lt : b.scope < a.scopes.size
  scope : (a.scope b.scope).node = d.target

def Analysis.identifierOf (a : Analysis) (b : BindingId) : NodeId := (a.binding b).identifier

/-- Each reference is counted twice: with its binding and with the node that refers. -/
structure Ledger (a : Analysis) (refs : List (NodeId × NodeId)) : Prop where
  injective : ∀ b < a.bindings.size, ∀ b' < a.bindings.size, a.identifierOf b = a.identifierOf b' → b = b'
  references : ∀ b < a.bindings.size,
    (a.binding b).references = (refs.filter (·.2 = a.identifierOf b)).map Prod.fst
  resolved : ∀ n, ((a.resolved.get? n).getD []).map a.identifierOf = (refs.filter (·.1 = n)).map Prod.snd
  resolved_lt : ∀ n, ∀ b ∈ (a.resolved.get? n).getD [], b < a.bindings.size

structure Records (a : Analysis) (t : Tree) (ns : List NodeId) (bs : List (Declaration NodeId))
    (refs : List (NodeId × NodeId)) : Prop where
  scopes : Scopes a t ns
  ledger : Ledger a refs
  distinct : ∀ d ∈ bs, ∀ e ∈ bs, d.target = e.target → t.text d.identifier = t.text e.identifier → d = e
  names : ∀ {n s}, a.scopeOf.get? n = some s →
    (a.scope s).names.entries.map (fun e => (e.1, a.identifierOf e.2)) =
      (bs.filter (·.target = n)).map fun d => (t.text d.identifier, d.identifier)
  entry : ∀ {n s}, a.scopeOf.get? n = some s → ∀ e ∈ (a.scope s).names.entries,
    a.declared.get? (a.identifierOf e.2) = some e.2
  declared : ∀ {i b}, a.declared.get? i = some b → b < a.bindings.size ∧ a.identifierOf b = i
  record : ∀ d ∈ bs, ∃ b, a.declared.get? d.identifier = some b ∧ Describes a t (a.binding b) d

variable {a : Analysis} {t : Tree} {ns : List NodeId} {bs : List (Declaration NodeId)}
  {refs : List (NodeId × NodeId)} {n : NodeId} {s : ScopeId}

theorem identifierOf_congr {a' : Analysis} (hb : a'.bindings = a.bindings) : a'.identifierOf = a.identifierOf :=
  funext fun b => by simp only [Analysis.identifierOf, Analysis.binding, hb]

/-- The ledger is about the bindings and the references of an analysis only. -/
theorem Ledger.congr {a' : Analysis} (h : Ledger a refs) (hb : a'.bindings = a.bindings)
    (hr : a'.resolved = a.resolved) : Ledger a' refs := by
  refine ⟨?_, ?_, ?_, ?_⟩
  · rw [identifierOf_congr hb, hb]
    exact h.injective
  · simp only [identifierOf_congr hb, Analysis.binding, hb]
    exact h.references
  · rw [identifierOf_congr hb, hr]
    exact h.resolved
  · rw [hr, hb]
    exact h.resolved_lt

/-! ## Scopes -/

namespace Scopes

theorem functionParent_eq (ht : t.Consistent) (h : Scopes a t ns) (hc : t.Enclosed ns)
    (hs : a.scopeOf.get? n = some s) :
    a.scopeOf.get? (t.hoistNode n) = some (a.functionParent s) := by
  have climb : ∀ (fuel : Nat) {n : NodeId} {s : ScopeId}, s < fuel → a.scopeOf.get? n = some s →
      a.scopeOf.get? (t.hoistNode n) = some (a.climbFunction fuel s) := by
    intro fuel
    induction fuel with
    | zero => exact fun hlt => absurd hlt (Nat.not_lt_zero _)
    | succ fuel ih =>
      intro n s hlt hs
      obtain ⟨hn, hscope⟩ := h.attached n (h.mem_of_some hs)
      by_cases hr : n = t.root
      · subst hr
        obtain rfl : s = Analysis.program := Option.some.inj (hs.symm.trans h.root)
        have hhoist : t.hoistNode t.root = t.root := by
          simpa [scopeChain_root ht] using hoistNode_mem ht .refl
        have hkind : (a.scope Analysis.program).kind = .program := (h.kind hs).trans scopeKind_root
        rw [hhoist, hs, Analysis.climbFunction, hkind]
      · obtain ⟨p, hps, hp, hparent⟩ := h.parent_live hc hs hr
        rw [hoistNode_scope ht hn hscope hr, ← h.kind hs, Analysis.climbFunction, hparent]
        have := ih (Nat.lt_of_lt_of_le hps (Nat.le_of_lt_succ hlt)) hp
        cases hk : (a.scope s).kind <;> simp [hs, this]
  exact climb _ (h.lt hs) hs

/-- The scope of a node in the tree is the one that an upward search for an opened scope finds. -/
theorem enclosing_eq (ht : t.Consistent) (h : Scopes a t ns)
    (hall : ∀ m, t.Below t.root m → t.isScope m = true → m ∈ ns) (hn : t.Below t.root n) :
    a.scopeOf.get? (t.scopeNode n) = some (a.enclosing t n) := by
  have climb : ∀ {n : NodeId} {k : Nat}, t.Hangs k n → ∀ fuel, k < fuel →
      a.scopeOf.get? (t.scopeNode n) = some (a.climbScope t fuel n) := by
    intro n k hk
    induction hk with
    | root =>
      intro fuel hf
      obtain ⟨fuel, rfl⟩ : ∃ m, fuel = m + 1 := ⟨fuel - 1, by omega⟩
      rw [scopeNode_root ht, Analysis.climbScope, h.root]
    | @child k p c hp hk ih =>
      intro fuel hf
      obtain ⟨fuel, rfl⟩ : ∃ m, fuel = m + 1 := ⟨fuel - 1, by omega⟩
      have hr : t.Below t.root p := below_root_iff.mpr ⟨k, hk⟩
      have hc : t.Below t.root c := .step hp hr
      rw [scopeNode_eq ht hc, Analysis.climbScope]
      cases hs : a.scopeOf.get? c with
      | some s =>
        have := (h.attached c (h.mem_of_some hs)).2
        simp [this, hs]
      | none =>
        have : ¬ t.isScope c = true := fun hscope => by
          obtain ⟨s, hs'⟩ := (h.mem_iff c).mp (hall c hc hscope)
          rw [hs] at hs'
          cases hs'
        rw [if_neg this, outerNode_child hp, hp]
        exact ih fuel (by omega)
  obtain ⟨k, hk⟩ := below_root_iff.mp hn
  exact climb hk _ (Nat.lt_succ_of_lt (hk.lt_size ht))

end Scopes

/-! ## Names -/

namespace Records

theorem own?_declared (h : Records a t ns bs refs) (hs : a.scopeOf.get? n = some s) {name : String}
    {b : BindingId} (hb : a.own? s name = some b) : a.declared.get? (a.identifierOf b) = some b :=
  h.entry hs _ (Table.mem_of_get? hb)

/-- A name table holds the first declarations of its scope. -/
theorem own?_map (h : Records a t ns bs refs) (hs : a.scopeOf.get? n = some s) (name : String) :
    (a.own? s name).map a.identifierOf = (t.firstOf? bs n name).map Declaration.identifier := by
  have hfind : ((a.scope s).names.entries.find? fun e => e.1 = name).map (fun e => a.identifierOf e.2) =
      (((a.scope s).names.entries.map fun e => (e.1, a.identifierOf e.2)).find? fun e => e.1 = name).map
        Prod.snd := by
    rw [List.find?_map, Option.map_map]
    rfl
  rw [Analysis.own?, Table.get?_eq_find?, Option.map_map]
  refine hfind.trans ?_
  rw [h.names hs, List.find?_map, Option.map_map, List.find?_filter, firstOf?]
  simp only [Function.comp_def, Bool.decide_and, decide_eq_true_eq]

theorem lookup?_map (ht : t.Consistent) (h : Records a t ns bs refs) (hc : t.Enclosed ns)
    (hs : a.scopeOf.get? n = some s) (name : String) : (a.lookup? s name).map a.identifierOf =
      ((t.scopeChain n).findSome? (t.firstOf? bs · name)).map Declaration.identifier := by
  have climb : ∀ (fuel : Nat) {n : NodeId} {s : ScopeId}, s < fuel → a.scopeOf.get? n = some s →
      (a.climbNames name fuel s).map a.identifierOf =
        ((t.scopeChain n).findSome? (t.firstOf? bs · name)).map Declaration.identifier := by
    intro fuel
    induction fuel with
    | zero => exact fun hlt => absurd hlt (Nat.not_lt_zero _)
    | succ fuel ih =>
      intro n s hlt hs
      obtain ⟨hn, hscope⟩ := h.scopes.attached n (h.scopes.mem_of_some hs)
      have hown := h.own?_map hs name
      by_cases hr : n = t.root
      · subst hr
        obtain rfl : s = Analysis.program := Option.some.inj (hs.symm.trans h.scopes.root)
        rw [scopeChain_root ht, Analysis.climbNames, h.scopes.parent_root]
        cases hb : a.own? Analysis.program name <;> cases hd : t.firstOf? bs t.root name <;>
          simp_all
      · obtain ⟨p, hps, hp, hparent⟩ := h.scopes.parent_live hc hs hr
        have := ih (Nat.lt_of_lt_of_le hps (Nat.le_of_lt_succ hlt)) hp
        rw [scopeChain_scope ht hn hscope hr, Analysis.climbNames, hparent]
        cases hb : a.own? s name <;> cases hd : t.firstOf? bs n name <;> simp_all
  exact climb _ (h.scopes.lt hs) hs

/-- A binding found by a look-up stands in a name table. -/
theorem lookup?_lt (h : Records a t ns bs refs) (hc : t.Enclosed ns) (hs : a.scopeOf.get? n = some s)
    {name : String} {b : BindingId} (hb : a.lookup? s name = some b) : b < a.bindings.size := by
  have climb : ∀ (fuel : Nat) {n : NodeId} {s : ScopeId}, a.scopeOf.get? n = some s →
      a.climbNames name fuel s = some b → b < a.bindings.size := by
    intro fuel
    induction fuel with
    | zero => intro _ _ _ hb; cases hb
    | succ fuel ih =>
      intro n s hs hb
      rw [Analysis.climbNames] at hb
      split at hb
      · rename_i b' hown
        obtain rfl := Option.some.inj hb
        exact (h.declared (h.own?_declared hs hown)).1
      · split at hb
        · cases hb
        · rename_i p hp
          by_cases hr : n = t.root
          · subst hr
            obtain rfl := Option.some.inj (hs.symm.trans h.scopes.root)
            rw [h.scopes.parent_root] at hp
            cases hp
          · obtain ⟨q, _, hq, hparent⟩ := h.scopes.parent_live hc hs hr
            obtain rfl := Option.some.inj (hp.symm.trans hparent)
            exact ih hq hb
  exact climb _ hs hb

end Records

/-! ## Changes that keep scopes and bindings -/

/-- The names and the revision of a scope play no part in the scope tree. -/
theorem Scopes.congr {a' : Analysis} (h : Scopes a t ns) (hof : a'.scopeOf = a.scopeOf)
    (hsize : a'.scopes.size = a.scopes.size)
    (hscope : ∀ s, ∃ names revision, a'.scope s = { a.scope s with names, revision }) :
    Scopes a' t ns := by
  have hnode : ∀ s, (a'.scope s).node = (a.scope s).node := fun s => by
    obtain ⟨_, _, hs⟩ := hscope s
    rw [hs]
  have hkind : ∀ s, (a'.scope s).kind = (a.scope s).kind := fun s => by
    obtain ⟨_, _, hs⟩ := hscope s
    rw [hs]
  have hparent : ∀ s, (a'.scope s).parent = (a.scope s).parent := fun s => by
    obtain ⟨_, _, hs⟩ := hscope s
    rw [hs]
  have hchildren : ∀ s, (a'.scope s).children = (a.scope s).children := fun s => by
    obtain ⟨_, _, hs⟩ := hscope s
    rw [hs]
  exact {
    nodup := h.nodup
    attached := h.attached
    mem_iff := by rw [hof]; exact h.mem_iff
    lt := by rw [hof, hsize]; exact h.lt
    node := by simp only [hof, hnode]; exact h.node
    unique := by simp only [hsize, hnode]; exact h.unique
    kind := by simp only [hof, hkind]; exact h.kind
    root := by rw [hof]; exact h.root
    parent_root := by rw [hparent]; exact h.parent_root
    parent := by simp only [hof, hnode, hparent]; exact h.parent
    children := by simp only [hof, hnode, hchildren]; exact h.children
    child := by simp only [hof, hnode, hchildren]; exact h.child }

/-- `a'` differs from `a` at most in what is counted. -/
structure Recounted (a a' : Analysis) : Prop where
  scopeOf : a'.scopeOf = a.scopeOf
  declared : a'.declared = a.declared
  scopes_size : a'.scopes.size = a.scopes.size
  bindings_size : a'.bindings.size = a.bindings.size
  scope : ∀ s, ∃ revision, a'.scope s = { a.scope s with revision }
  binding : ∀ b, ∃ references, a'.binding b = { a.binding b with references }

namespace Recounted

variable {a' a'' : Analysis}

theorem refl (a : Analysis) : Recounted a a := ⟨rfl, rfl, rfl, rfl, fun _ => ⟨_, rfl⟩, fun _ => ⟨_, rfl⟩⟩

theorem trans (h : Recounted a a') (h' : Recounted a' a'') : Recounted a a'' where
  scopeOf := h'.scopeOf.trans h.scopeOf
  declared := h'.declared.trans h.declared
  scopes_size := h'.scopes_size.trans h.scopes_size
  bindings_size := h'.bindings_size.trans h.bindings_size
  scope := fun s => by
    obtain ⟨r, hr⟩ := h'.scope s
    obtain ⟨_, hs⟩ := h.scope s
    exact ⟨r, by rw [hr, hs]⟩
  binding := fun b => by
    obtain ⟨r, hr⟩ := h'.binding b
    obtain ⟨_, hb⟩ := h.binding b
    exact ⟨r, by rw [hr, hb]⟩

theorem identifierOf (h : Recounted a a') (b : BindingId) : a'.identifierOf b = a.identifierOf b := by
  obtain ⟨_, hb⟩ := h.binding b
  rw [Analysis.identifierOf, hb]
  rfl

theorem node (h : Recounted a a') (s : ScopeId) : (a'.scope s).node = (a.scope s).node := by
  obtain ⟨_, hs⟩ := h.scope s
  rw [hs]

theorem names (h : Recounted a a') (s : ScopeId) : (a'.scope s).names = (a.scope s).names := by
  obtain ⟨_, hs⟩ := h.scope s
  rw [hs]

theorem describes (h : Recounted a a') {b : BindingId} {d : Declaration NodeId}
    (hb : Describes a t (a.binding b) d) : Describes a' t (a'.binding b) d := by
  obtain ⟨_, he⟩ := h.binding b
  rw [he]
  exact { hb with scope_lt := h.scopes_size ▸ hb.scope_lt, scope := (h.node _).trans hb.scope }

theorem records (h : Recounted a a') (hr : Records a t ns bs refs) {refs' : List (NodeId × NodeId)}
    (hl : Ledger a' refs') : Records a' t ns bs refs' where
  scopes := hr.scopes.congr h.scopeOf h.scopes_size fun s => by
    obtain ⟨r, hs⟩ := h.scope s
    exact ⟨_, r, hs⟩
  ledger := hl
  distinct := hr.distinct
  names := fun hs => by
    simp only [h.names, h.identifierOf]
    exact hr.names (h.scopeOf ▸ hs)
  entry := fun hs e he => by
    rw [h.identifierOf, h.declared]
    exact hr.entry (h.scopeOf ▸ hs) e (h.names _ ▸ he)
  declared := fun hb => by
    rw [h.identifierOf, h.bindings_size]
    exact hr.declared (h.declared ▸ hb)
  record := fun d hd => by
    obtain ⟨b, hb, hdesc⟩ := hr.record d hd
    exact ⟨b, h.declared ▸ hb, h.describes hdesc⟩

end Recounted

/-! ## Counting a reference -/

theorem recounted_reference (a : Analysis) (b : BindingId) (n : NodeId) :
    Recounted a (a.reference b n) where
  scopeOf := rfl
  declared := rfl
  scopes_size := rfl
  bindings_size := Analysis.bindings_size_modifyBinding ..
  scope := fun _ => ⟨_, rfl⟩
  binding := fun b' => by
    change ∃ _, (a.modifyBinding b _).binding b' = _
    rw [Analysis.binding_modifyBinding]
    split
    · exact ⟨_, rfl⟩
    · exact ⟨_, rfl⟩

theorem Ledger.reference (h : Ledger a refs) {b : BindingId} (hb : b < a.bindings.size) (n : NodeId) :
    Ledger (a.reference b n) (refs ++ [(n, a.identifierOf b)]) := by
  have same := recounted_reference a b n
  refine { injective := fun x hx y hy he => ?_, references := fun x hx => ?_
           resolved := fun m => ?_, resolved_lt := fun m x hx => ?_ }
  · rw [same.bindings_size] at hx hy
    rw [same.identifierOf, same.identifierOf] at he
    exact h.injective x hx y hy he
  · rw [same.bindings_size] at hx
    have hiff : a.identifierOf b = a.identifierOf x ↔ b = x :=
      ⟨fun he => h.injective b hb x hx he, fun he => he ▸ rfl⟩
    change ((a.modifyBinding b _).binding x).references = _
    rw [Analysis.binding_modifyBinding, same.identifierOf, List.filter_append, List.map_append,
      ← h.references x hx]
    by_cases he : b = x
    · simp [he, hx]
    · simp [he, hiff]
  · have hmap : ∀ l : List BindingId, l.map (a.reference b n).identifierOf = l.map a.identifierOf :=
      fun l => List.map_congr_left fun x _ => same.identifierOf x
    change ((Table.get? (Table.insert a.resolved n _) m).getD []).map _ = _
    rw [Table.get?_insert, hmap, List.filter_append, List.map_append, ← h.resolved m]
    by_cases he : n = m
    · simp [he, Analysis.modifyBinding]
    · simp [he]
  · change x ∈ (Table.get? (Table.insert a.resolved n _) m).getD [] at hx
    rw [Table.get?_insert] at hx
    rw [same.bindings_size]
    split at hx
    · rcases List.mem_append.mp hx with hx | hx
      · exact h.resolved_lt n x hx
      · exact List.mem_singleton.mp hx ▸ hb
    · exact h.resolved_lt m x hx

theorem Records.reference (h : Records a t ns bs refs) {b : BindingId} (hb : b < a.bindings.size)
    (n : NodeId) : Records (a.reference b n) t ns bs (refs ++ [(n, a.identifierOf b)]) :=
  (recounted_reference a b n).records h (h.ledger.reference hb n)

end DeadCode
