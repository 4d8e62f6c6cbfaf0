import DeadCode.Proofs.Lists
import DeadCode.Proofs.Names.Records

/-!
What subtracting a subtree does to an analysis: its scopes, its bindings and the references that its nodes
make disappear from the record, and nothing else does (`records_dropNodes`).
-/

namespace DeadCode

open DeadCode.Tree

variable {a : Analysis} {t : Tree} {ns : List NodeId} {bs : List (Declaration NodeId)}
  {refs : List (NodeId × NodeId)} {n : NodeId}

/-! ## References -/

theorem references_unreference (n : NodeId) (a : Analysis) (b x : BindingId) :
    ((Analysis.unreference n a b).binding x).references =
      if b = x ∧ x < a.bindings.size then (a.binding x).references.erase n
      else (a.binding x).references := by
  have h := Analysis.binding_modifyBinding a b x fun d => { d with references := d.references.erase n }
  have hb : (Analysis.unreference n a b).binding x =
      (a.modifyBinding b fun d => { d with references := d.references.erase n }).binding x := by
    simp only [Analysis.unreference]
    split <;> rfl
  rw [hb, h]
  split <;> rfl

theorem recounted_unreference (n : NodeId) (a : Analysis) (b : BindingId) :
    Recounted a (Analysis.unreference n a b) := by
  have h : Recounted a (a.modifyBinding b fun d => { d with references := d.references.erase n }) := {
    scopeOf := rfl
    declared := rfl
    scopes_size := rfl
    bindings_size := Analysis.bindings_size_modifyBinding ..
    scope := fun _ => ⟨_, rfl⟩
    binding := fun x => by
      rw [Analysis.binding_modifyBinding]
      split
      · exact ⟨_, rfl⟩
      · exact ⟨_, rfl⟩ }
  simp only [Analysis.unreference]
  split
  · exact h
  · refine h.trans {
      scopeOf := rfl
      declared := rfl
      scopes_size := Analysis.scopes_size_modifyScope ..
      bindings_size := rfl
      scope := fun s => ?_
      binding := fun _ => ⟨_, rfl⟩ }
    rw [Analysis.scope_modifyScope]
    split
    · exact ⟨_, rfl⟩
    · exact ⟨_, rfl⟩

theorem resolved_unreference (n : NodeId) (a : Analysis) (b : BindingId) :
    (Analysis.unreference n a b).resolved = a.resolved := by
  simp only [Analysis.unreference]
  split <;> rfl

/-- Each entry of the list of bindings that a node refers to takes one reference away. -/
theorem unreference_all (n : NodeId) (ids : List BindingId) : ∀ a : Analysis,
    Recounted a (ids.foldl (Analysis.unreference n) a) ∧
      (ids.foldl (Analysis.unreference n) a).resolved = a.resolved ∧
      ∀ x < a.bindings.size, ((ids.foldl (Analysis.unreference n) a).binding x).references =
        (fun l => l.erase n)^[ids.count x] (a.binding x).references := by
  induction ids with
  | nil => exact fun a => ⟨.refl a, rfl, fun _ _ => rfl⟩
  | cons b ids ih =>
    intro a
    obtain ⟨hr, hres, href⟩ := ih (Analysis.unreference n a b)
    have h1 := recounted_unreference n a b
    refine ⟨h1.trans hr, hres.trans (resolved_unreference n a b), fun x hx => ?_⟩
    rw [List.foldl_cons, href x (h1.bindings_size.symm ▸ hx), references_unreference, List.count_cons]
    by_cases h : b = x
    · simp [h, hx, Function.iterate_succ_apply]
    · simp [h]

theorem recounted_dropReferences (a : Analysis) (n : NodeId) : Recounted a (a.dropReferences n) :=
  have h : Recounted a { a with resolved := a.resolved.erase n } :=
    ⟨rfl, rfl, rfl, rfl, fun _ => ⟨_, rfl⟩, fun _ => ⟨_, rfl⟩⟩
  h.trans (unreference_all n _ _).1

/-- A node is counted as often with a binding as the binding is with the node: the entries for both are the
pairs of the node and the identifier of the binding. -/
theorem Ledger.count_resolved (h : Ledger a refs) (n : NodeId) {x : BindingId} (hx : x < a.bindings.size) :
    ((a.resolved.get? n).getD []).count x = (a.binding x).references.count n := by
  have hleft : ((a.resolved.get? n).getD []).count x =
      (((a.resolved.get? n).getD []).map a.identifierOf).count (a.identifierOf x) := by
    rw [List.count, List.count, List.countP_map]
    refine List.countP_congr fun b hb => ?_
    have := h.injective b (h.resolved_lt n b hb) x hx
    simp only [beq_iff_eq, Function.comp_apply]
    exact ⟨fun he => he ▸ rfl, this⟩
  rw [hleft, h.resolved n, h.references x hx, List.count, List.count, List.countP_map, List.countP_map,
    List.countP_filter, List.countP_filter]
  refine List.countP_congr fun r _ => ?_
  simp [and_comm]

theorem Ledger.dropReferences (h : Ledger a refs) (n : NodeId) :
    Ledger (a.dropReferences n) (refs.filter (·.1 ≠ n)) := by
  have same := recounted_dropReferences a n
  obtain ⟨_, hres, href⟩ := unreference_all n ((a.resolved.get? n).getD [])
    { a with resolved := a.resolved.erase n }
  have hres : (a.dropReferences n).resolved = a.resolved.erase n := hres
  refine { injective := fun x hx y hy he => ?_, references := fun x hx => ?_
           resolved := fun m => ?_, resolved_lt := fun m x hx => ?_ }
  · rw [same.bindings_size] at hx hy
    rw [same.identifierOf, same.identifierOf] at he
    exact h.injective x hx y hy he
  · rw [same.bindings_size] at hx
    have hcount := h.count_resolved n hx
    have hdrop : ((a.dropReferences n).binding x).references =
        (fun l => l.erase n)^[((a.resolved.get? n).getD []).count x] (a.binding x).references := href x hx
    rw [hdrop, Lists.iterate_erase n _ hcount.symm, same.identifierOf, h.references x hx, List.filter_map,
      List.filter_filter, List.filter_filter]
    congr 1
    exact List.filter_congr fun r _ => by simp [Bool.and_comm]
  · have hmap : ∀ l : List BindingId, l.map (a.dropReferences n).identifierOf = l.map a.identifierOf :=
      fun l => List.map_congr_left fun x _ => same.identifierOf x
    rw [hres, Table.get?_erase, hmap, List.filter_filter]
    by_cases he : n = m
    · subst he
      have : refs.filter (fun r => decide (r.1 = n) && decide (r.1 ≠ n)) = [] :=
        List.filter_eq_nil_iff.mpr fun r _ => by simp
      rw [if_pos rfl, this]
      rfl
    · rw [if_neg he, h.resolved m]
      congr 1
      refine List.filter_congr fun r _ => ?_
      by_cases hr : r.1 = m
      · simp [hr, Ne.symm he]
      · simp [hr]
  · rw [hres, Table.get?_erase] at hx
    rw [same.bindings_size]
    split at hx
    · cases hx
    · exact h.resolved_lt m x hx

theorem Records.dropReferences (h : Records a t ns bs refs) (n : NodeId) :
    Records (a.dropReferences n) t ns bs (refs.filter (·.1 ≠ n)) :=
  (recounted_dropReferences a n).records h (h.ledger.dropReferences n)

/-! ## Declarations -/

/-- The table of a live scope holds a binding exactly if its declaration is recorded there. -/
theorem Records.own?_of_mem (h : Records a t ns bs refs) {d : Declaration NodeId} (hd : d ∈ bs)
    (hlive : d.target ∈ ns) {b : BindingId} (hb : a.declared.get? d.identifier = some b) :
    a.own? (a.binding b).scope (a.binding b).name = some b ∧
      a.scopeOf.get? d.target = some (a.binding b).scope := by
  obtain ⟨b', hb', hdesc⟩ := h.record d hd
  obtain rfl := Option.some.inj (hb.symm.trans hb')
  have hs := h.scopes.scopeOf_node hdesc.scope_lt (hdesc.scope.symm ▸ hlive)
  rw [hdesc.scope] at hs
  refine ⟨?_, hs⟩
  have hown := h.own?_map hs (a.binding b).name
  -- no other declaration has the same name in the same scope
  have hfirst : t.firstOf? bs d.target (a.binding b).name = some d := by
    rw [hdesc.name]
    have hsome : (t.firstOf? bs d.target (t.text d.identifier)).isSome := by
      rw [firstOf?, List.find?_isSome]
      exact ⟨d, hd, by simp⟩
    obtain ⟨e, he⟩ := Option.isSome_iff_exists.mp hsome
    have hkey : e.target = d.target ∧ t.text e.identifier = t.text d.identifier := by
      simpa using List.find?_some he
    rw [he, h.distinct e (List.mem_of_find?_eq_some he) d hd hkey.1 hkey.2]
  rw [hfirst, Option.map_some] at hown
  obtain ⟨c, hc, hid⟩ := Option.map_eq_some_iff.mp hown
  have := h.own?_declared hs hc
  rw [hid, hb] at this
  rw [hc, ← Option.some.inj this]

/-- `a'` differs from `a` at most in the names that are declared. -/
structure Renamed (a a' : Analysis) : Prop where
  crawls : a'.crawls = a.crawls
  scopeOf : a'.scopeOf = a.scopeOf
  resolved : a'.resolved = a.resolved
  bindings : a'.bindings = a.bindings
  scopes_size : a'.scopes.size = a.scopes.size
  scope : ∀ s, ∃ names, a'.scope s = { a.scope s with names }

theorem renamed_dropDeclaration (a : Analysis) (n : NodeId) : Renamed a (a.dropDeclaration n) := by
  unfold Analysis.dropDeclaration
  split
  · exact ⟨rfl, rfl, rfl, rfl, rfl, fun _ => ⟨_, rfl⟩⟩
  · dsimp only
    split
    · refine ⟨rfl, rfl, rfl, rfl, Analysis.scopes_size_modifyScope .., fun s => ?_⟩
      rw [Analysis.scope_modifyScope]
      split <;> exact ⟨_, rfl⟩
    · exact ⟨rfl, rfl, rfl, rfl, rfl, fun _ => ⟨_, rfl⟩⟩

/-- `a'` is `a` after the binding `b` was taken out of the tables. -/
structure Unbinds (a a' : Analysis) (b : BindingId) : Prop where
  scopeOf : a'.scopeOf = a.scopeOf
  scopes_size : a'.scopes.size = a.scopes.size
  bindings : a'.bindings = a.bindings
  resolved : a'.resolved = a.resolved
  declared : a'.declared = a.declared.erase (a.identifierOf b)
  scope : ∀ s, a'.scope s =
    if s = (a.binding b).scope ∧ a.own? s (a.binding b).name = some b then
      { a.scope s with names := (a.scope s).names.erase (a.binding b).name }
    else a.scope s

theorem unbinds_dropDeclaration {b : BindingId} (hb : a.declared.get? n = some b)
    (hid : a.identifierOf b = n) : Unbinds a (a.dropDeclaration n) b := by
  subst hid
  set a' : Analysis := { a with declared := a.declared.erase (a.identifierOf b) } with ha'
  have hdrop : a.dropDeclaration (a.identifierOf b) =
      if a.own? (a.binding b).scope (a.binding b).name = some b then
        a'.modifyScope (a.binding b).scope fun s => { s with names := s.names.erase (a.binding b).name }
      else a' := by
    simp only [Analysis.dropDeclaration, hb]
    rfl
  rw [hdrop]
  split
  · rename_i hown
    refine ⟨rfl, Analysis.scopes_size_modifyScope .., rfl, rfl, rfl, fun s => ?_⟩
    -- a scope outside the store owns nothing
    have hlt : (a.binding b).scope < a.scopes.size := by
      by_contra hge
      rw [Analysis.own?, Analysis.scope_eq_default a (not_lt.mp hge)] at hown
      cases hown
    rw [Analysis.scope_modifyScope]
    by_cases hs : (a.binding b).scope = s
    · subst hs
      rw [if_pos ⟨rfl, hlt⟩, if_pos ⟨rfl, hown⟩]
      rfl
    · rw [if_neg (fun h => hs h.1), if_neg (fun h => hs h.1.symm)]
      rfl
  · rename_i hown
    refine ⟨rfl, rfl, rfl, rfl, rfl, fun s => ?_⟩
    rw [if_neg]
    · rfl
    · rintro ⟨rfl, hs⟩
      exact hown hs

namespace Unbinds

variable {a' : Analysis} {b : BindingId}

theorem binding (u : Unbinds a a' b) (c : BindingId) : a'.binding c = a.binding c := by
  simp only [Analysis.binding, u.bindings]

theorem identifierOf (u : Unbinds a a' b) : a'.identifierOf = a.identifierOf :=
  identifierOf_congr u.bindings

theorem node (u : Unbinds a a' b) (s : ScopeId) : (a'.scope s).node = (a.scope s).node := by
  rw [u.scope]
  split <;> rfl

theorem declared_iff (u : Unbinds a a' b) {i : NodeId} {c : BindingId} :
    a'.declared.get? i = some c ↔ a.identifierOf b ≠ i ∧ a.declared.get? i = some c := by
  rw [u.declared, Table.get?_erase]
  split <;> simp_all

/-- In the table of `b` its name stands for its identifier only, any other table never held it. -/
theorem names (u : Unbinds a a' b) (h : Records a t ns bs refs)
    (hb : a.declared.get? (a.identifierOf b) = some b) {m : NodeId} {s : ScopeId}
    (hs : a.scopeOf.get? m = some s) :
    (a'.scope s).names.entries.map (fun e => (e.1, a.identifierOf e.2)) =
      ((bs.filter (·.identifier ≠ a.identifierOf b)).filter (·.target = m)).map
        fun d => (t.text d.identifier, d.identifier) := by
  have hcomm : (bs.filter (·.identifier ≠ a.identifierOf b)).filter (·.target = m) =
      (bs.filter (·.target = m)).filter (·.identifier ≠ a.identifierOf b) := by
    rw [List.filter_filter, List.filter_filter]
    exact List.filter_congr fun d _ => Bool.and_comm ..
  rw [u.scope, hcomm]
  split
  · rename_i hown
    have hfirst := h.own?_map hs (a.binding b).name
    rw [hown.2, Option.map_some] at hfirst
    obtain ⟨e, he, hen⟩ := Option.map_eq_some_iff.mp hfirst.symm
    have hekey : e.target = m ∧ t.text e.identifier = (a.binding b).name := by
      simpa using List.find?_some he
    have heq : ∀ d ∈ bs.filter (·.target = m),
        (t.text d.identifier = (a.binding b).name ↔ d.identifier = a.identifierOf b) := by
      intro d hd
      obtain ⟨hd, htarget⟩ := List.mem_filter.mp hd
      have htarget : d.target = m := by simpa using htarget
      refine ⟨fun ht => ?_, fun hi => ?_⟩
      · rw [h.distinct d hd e (List.mem_of_find?_eq_some he) (htarget.trans hekey.1.symm)
          (ht.trans hekey.2.symm), hen]
      · rw [hi, ← hen, hekey.2]
    have herase : ((a.scope s).names.erase (a.binding b).name).entries.map
          (fun e => (e.1, a.identifierOf e.2)) =
        (((a.scope s).names.entries.map fun e => (e.1, a.identifierOf e.2)).filter
          (·.1 ≠ (a.binding b).name)) := by
      rw [List.filter_map]
      rfl
    rw [herase, h.names hs, List.filter_map]
    congr 1
    exact List.filter_congr fun d hd => by simp [heq d hd]
  · rename_i hown
    rw [h.names hs]
    congr 1
    refine (List.filter_eq_self.mpr fun d hd => ?_).symm
    obtain ⟨hd, htarget⟩ := List.mem_filter.mp hd
    have htarget : d.target = m := by simpa using htarget
    simp only [decide_eq_true_eq]
    intro hi
    obtain ⟨h1, h2⟩ := h.own?_of_mem hd (htarget.symm ▸ h.scopes.mem_of_some hs) (hi.symm ▸ hb)
    rw [htarget, hs] at h2
    exact hown ⟨Option.some.inj h2, Option.some.inj h2 ▸ h1⟩

theorem records (u : Unbinds a a' b) (h : Records a t ns bs refs)
    (hb : a.declared.get? (a.identifierOf b) = some b) :
    Records a' t ns (bs.filter (·.identifier ≠ a.identifierOf b)) refs where
  scopes := h.scopes.congr u.scopeOf u.scopes_size fun s => by
    rw [u.scope]
    split
    · exact ⟨_, _, rfl⟩
    · exact ⟨_, _, rfl⟩
  ledger := h.ledger.congr u.bindings u.resolved
  distinct := fun d hd e he => h.distinct d (List.mem_filter.mp hd).1 e (List.mem_filter.mp he).1
  names := fun hs => by
    rw [u.identifierOf]
    exact u.names h hb (u.scopeOf ▸ hs)
  entry := fun {m s} hs e he => by
    have hs : a.scopeOf.get? m = some s := u.scopeOf ▸ hs
    have hmem := List.mem_map_of_mem (f := fun e => (e.1, a.identifierOf e.2)) he
    rw [u.names h hb hs] at hmem
    obtain ⟨d, hd, hpair⟩ := List.mem_map.mp hmem
    have hne : d.identifier ≠ a.identifierOf b := by
      simpa using (List.mem_filter.mp (List.mem_filter.mp hd).1).2
    have hold : e ∈ (a.scope s).names.entries := by
      rw [u.scope] at he
      split at he
      · exact (List.mem_filter.mp he).1
      · exact he
    rw [u.identifierOf, u.declared_iff]
    exact ⟨fun hne' => hne ((Prod.mk.inj hpair).2.trans hne'.symm), h.entry hs e hold⟩
  declared := fun hc => by
    rw [u.identifierOf, u.bindings]
    exact h.declared (u.declared_iff.mp hc).2
  record := fun d hd => by
    obtain ⟨hd, hne⟩ := List.mem_filter.mp hd
    obtain ⟨c, hc, hdesc⟩ := h.record d hd
    have hne : d.identifier ≠ a.identifierOf b := by simpa using hne
    refine ⟨c, u.declared_iff.mpr ⟨Ne.symm hne, hc⟩, ?_⟩
    rw [u.binding]
    exact { hdesc with scope_lt := u.scopes_size ▸ hdesc.scope_lt, scope := (u.node _).trans hdesc.scope }

end Unbinds

theorem Records.dropDeclaration (h : Records a t ns bs refs) (n : NodeId) :
    Records (a.dropDeclaration n) t ns (bs.filter (·.identifier ≠ n)) refs := by
  cases hn : a.declared.get? n with
  | none =>
    have hall : bs.filter (·.identifier ≠ n) = bs := List.filter_eq_self.mpr fun d hd => by
      obtain ⟨b, hb, _⟩ := h.record d hd
      have : d.identifier ≠ n := fun he => by
        rw [he, hn] at hb
        cases hb
      simpa using this
    rw [hall, Analysis.dropDeclaration, hn]
    exact h
  | some b =>
    obtain ⟨_, hid⟩ := h.declared hn
    have := (unbinds_dropDeclaration hn hid).records h (hid.symm ▸ hn)
    rwa [hid] at this

/-! ## Scopes -/

/-- `a'` differs from `a` at most in the scopes of nodes and in how scopes are listed. -/
structure Rescoped (a a' : Analysis) : Prop where
  crawls : a'.crawls = a.crawls
  declared : a'.declared = a.declared
  resolved : a'.resolved = a.resolved
  bindings : a'.bindings = a.bindings
  scopes_size : a'.scopes.size = a.scopes.size
  scope : ∀ s, ∃ children, a'.scope s = { a.scope s with children }

namespace Rescoped

variable {a' : Analysis}

theorem names (h : Rescoped a a') (s : ScopeId) : (a'.scope s).names = (a.scope s).names := by
  obtain ⟨_, hs⟩ := h.scope s
  rw [hs]

theorem node (h : Rescoped a a') (s : ScopeId) : (a'.scope s).node = (a.scope s).node := by
  obtain ⟨_, hs⟩ := h.scope s
  rw [hs]

theorem kind (h : Rescoped a a') (s : ScopeId) : (a'.scope s).kind = (a.scope s).kind := by
  obtain ⟨_, hs⟩ := h.scope s
  rw [hs]

theorem parent (h : Rescoped a a') (s : ScopeId) : (a'.scope s).parent = (a.scope s).parent := by
  obtain ⟨_, hs⟩ := h.scope s
  rw [hs]

end Rescoped

theorem rescoped_dropScope (a : Analysis) (n : NodeId) : Rescoped a (a.dropScope n) := by
  unfold Analysis.dropScope
  split
  · exact ⟨rfl, rfl, rfl, rfl, rfl, fun _ => ⟨_, rfl⟩⟩
  · dsimp only
    split
    · exact ⟨rfl, rfl, rfl, rfl, rfl, fun _ => ⟨_, rfl⟩⟩
    · refine ⟨rfl, rfl, rfl, rfl, Analysis.scopes_size_modifyScope .., fun s => ?_⟩
      rw [Analysis.scope_modifyScope]
      split <;> exact ⟨_, rfl⟩

theorem get?_scopeOf_dropScope (a : Analysis) (n m : NodeId) :
    (a.dropScope n).scopeOf.get? m = if n = m then none else a.scopeOf.get? m := by
  unfold Analysis.dropScope
  split
  · rename_i hn
    split
    · rename_i he
      rw [← he, hn]
    · rfl
  · dsimp only
    split <;> exact Table.get?_erase ..

theorem scopeOf_dropScope_iff {m : NodeId} {s : ScopeId} :
    (a.dropScope n).scopeOf.get? m = some s ↔ n ≠ m ∧ a.scopeOf.get? m = some s := by
  rw [get?_scopeOf_dropScope]
  split <;> simp_all

theorem scope_dropScope {s p : ScopeId} (hs : a.scopeOf.get? n = some s)
    (hp : (a.scope s).parent = some p) (x : ScopeId) : (a.dropScope n).scope x =
      if p = x ∧ x < a.scopes.size then
        { a.scope x with children := (a.scope x).children.erase s }
      else a.scope x := by
  have hdrop : a.dropScope n = { a with scopeOf := a.scopeOf.erase n }.modifyScope p
      fun sc => { sc with children := sc.children.erase s } := by
    have hp' : ({ a with scopeOf := a.scopeOf.erase n }.scope s).parent = some p := hp
    simp only [Analysis.dropScope, hs, hp']
  rw [hdrop, Analysis.scope_modifyScope]
  rfl

theorem dropScope_of_none (hn : a.scopeOf.get? n = none) : a.dropScope n = a := by
  rw [Analysis.dropScope, hn]

theorem dropScope_of_orphan {s : ScopeId} (hs : a.scopeOf.get? n = some s) (hp : (a.scope s).parent = none) :
    a.dropScope n = { a with scopeOf := a.scopeOf.erase n } := by
  have hp' : ({ a with scopeOf := a.scopeOf.erase n }.scope s).parent = none := hp
  simp only [Analysis.dropScope, hs, hp']

/-- The children of a live scope lose the dropped one. -/
theorem Scopes.children_dropScope (h : Scopes a t ns) {m : NodeId} {s p i : ScopeId}
    (hs : a.scopeOf.get? n = some s) (hp : (a.scope s).parent = some p) (hi : a.scopeOf.get? m = some i) :
    ((a.dropScope n).scope i).children = (a.scope i).children.filter fun c => (a.scope c).node ≠ n := by
  have hiff : ∀ c ∈ (a.scope i).children, ((a.scope c).node = n ↔ c = s) := by
    intro c hc
    refine ⟨fun he => ?_, fun he => he ▸ h.node hs⟩
    have hlive := h.child hi c hc
    rw [he, hs] at hlive
    exact (Option.some.inj hlive).symm
  rw [scope_dropScope hs hp]
  split
  · change (a.scope i).children.erase s = _
    rw [(h.nodup_children hi).erase_eq_filter]
    exact List.filter_congr fun c hc => by simp [bne, hiff c hc, beq_eq_decide]
  · rename_i hpi
    refine (List.filter_eq_self.mpr fun c hc => ?_).symm
    rw [decide_eq_true_eq]
    intro he
    obtain rfl := (hiff c hc).mp he
    have hparent := h.parent_of_child hi hc
    exact hpi ⟨Option.some.inj (hp.symm.trans hparent), h.lt hi⟩

theorem Scopes.dropScope (h : Scopes a t ns) (hroot : n ≠ t.root) :
    Scopes (a.dropScope n) t (ns.filter (· ≠ n)) := by
  have same := rescoped_dropScope a n
  cases hn : a.scopeOf.get? n with
  | none =>
    have hall : ns.filter (· ≠ n) = ns := List.filter_eq_self.mpr fun m hm => by
      obtain ⟨s, hs⟩ := (h.mem_iff m).mp hm
      have : m ≠ n := fun he => by
        rw [he, hn] at hs
        cases hs
      simpa using this
    rw [hall, dropScope_of_none hn]
    exact h
  | some s =>
    obtain ⟨p, _, _, hp⟩ := h.parent hn hroot
    have hold {m i} (hm : (a.dropScope n).scopeOf.get? m = some i) : a.scopeOf.get? m = some i :=
      (scopeOf_dropScope_iff.mp hm).2
    exact {
      nodup := h.nodup.filter _
      attached := fun m hm => h.attached m (List.mem_filter.mp hm).1
      mem_iff := fun m => by
        simp only [scopeOf_dropScope_iff, List.mem_filter, h.mem_iff, decide_eq_true_eq]
        constructor
        · rintro ⟨⟨i, hi⟩, hne⟩
          exact ⟨i, Ne.symm hne, hi⟩
        · rintro ⟨i, hne, hi⟩
          exact ⟨⟨i, hi⟩, Ne.symm hne⟩
      lt := fun hm => same.scopes_size ▸ h.lt (hold hm)
      node := fun hm => (same.node _).trans (h.node (hold hm))
      unique := by simp only [same.scopes_size, same.node]; exact h.unique
      kind := fun hm => (same.kind _).trans (h.kind (hold hm))
      root := scopeOf_dropScope_iff.mpr ⟨hroot, h.root⟩
      parent_root := (same.parent _).trans h.parent_root
      parent := fun hm hr => by
        simp only [same.node, same.parent]
        exact h.parent (hold hm) hr
      children := fun {m i} hm => by
        simp only [same.node]
        rw [h.children_dropScope hn hp (hold hm), List.filter_filter,
          show (fun c => decide ((a.scope c).node ≠ n)) = (fun x => decide (x ≠ n)) ∘ fun c => (a.scope c).node
            from rfl, ← List.filter_map, h.children (hold hm), List.filter_filter]
        exact List.filter_congr fun x _ => Bool.and_comm ..
      child := fun {m i} hm c hc => by
        rw [h.children_dropScope hn hp (hold hm)] at hc
        obtain ⟨hc, hne⟩ := List.mem_filter.mp hc
        have hne : (a.scope c).node ≠ n := by simpa using hne
        rw [same.node]
        exact scopeOf_dropScope_iff.mpr ⟨Ne.symm hne, h.child (hold hm) c hc⟩ }

theorem Records.dropScope (h : Records a t ns bs refs) (hroot : n ≠ t.root) :
    Records (a.dropScope n) t (ns.filter (· ≠ n)) bs refs := by
  have same := rescoped_dropScope a n
  have hident := identifierOf_congr same.bindings
  exact {
    scopes := h.scopes.dropScope hroot
    ledger := h.ledger.congr same.bindings same.resolved
    distinct := h.distinct
    names := fun hm => by
      rw [same.names, hident]
      exact h.names (scopeOf_dropScope_iff.mp hm).2
    entry := fun hm e he => by
      rw [hident, same.declared]
      exact h.entry (scopeOf_dropScope_iff.mp hm).2 e (same.names _ ▸ he)
    declared := fun hb => by
      rw [hident, same.bindings]
      exact h.declared (same.declared ▸ hb)
    record := fun d hd => by
      obtain ⟨b, hb, hdesc⟩ := h.record d hd
      refine ⟨b, same.declared ▸ hb, ?_⟩
      rw [Analysis.binding, same.bindings]
      exact { hdesc with
        scope_lt := same.scopes_size ▸ hdesc.scope_lt
        scope := (same.node _).trans hdesc.scope } }

/-! ## Nodes -/

theorem Records.dropNode (h : Records a t ns bs refs) (hroot : n ≠ t.root) :
    Records (a.dropNode n) t (ns.filter (· ≠ n)) (bs.filter (·.identifier ≠ n))
      (refs.filter (·.1 ≠ n)) :=
  ((h.dropReferences n).dropDeclaration n).dropScope hroot

theorem get?_declared_dropNode (a : Analysis) (n i : NodeId) :
    (a.dropNode n).declared.get? i = if n = i then none else a.declared.get? i := by
  have hdeclaration : ∀ a : Analysis, (a.dropDeclaration n).declared.get? i =
      if n = i then none else a.declared.get? i := fun a => by
    unfold Analysis.dropDeclaration
    split
    · rename_i hn
      by_cases he : n = i
      · rw [if_pos he, ← he, hn]
      · rw [if_neg he]
    · dsimp only
      split <;> exact Table.get?_erase ..
  rw [Analysis.dropNode, (rescoped_dropScope _ n).declared, hdeclaration, (recounted_dropReferences a n).declared]

theorem resolved_dropNode (a : Analysis) (n : NodeId) : (a.dropNode n).resolved = a.resolved.erase n := by
  rw [Analysis.dropNode, (rescoped_dropScope _ n).resolved, (renamed_dropDeclaration _ n).resolved]
  exact (unreference_all n _ _).2.1

theorem bindings_dropNode (a : Analysis) (n : NodeId) : (a.dropNode n).bindings = (a.dropReferences n).bindings :=
  (rescoped_dropScope _ n).bindings.trans (renamed_dropDeclaration _ n).bindings

/-- Of the tables that go by nodes the entries of other nodes are left. -/
theorem get?_dropNodes (nodes : List NodeId) : ∀ (a : Analysis) (i : NodeId),
    (nodes.foldl Analysis.dropNode a).declared.get? i = (if i ∈ nodes then none else a.declared.get? i) ∧
      (nodes.foldl Analysis.dropNode a).resolved.get? i = if i ∈ nodes then none else a.resolved.get? i := by
  induction nodes with
  | nil => exact fun _ _ => ⟨rfl, rfl⟩
  | cons n nodes ih =>
    intro a i
    obtain ⟨hdeclared, hresolved⟩ := ih (a.dropNode n) i
    rw [List.foldl_cons, hdeclared, hresolved, get?_declared_dropNode, resolved_dropNode, Table.get?_erase]
    by_cases he : n = i
    · simp [he]
    · simp [he, Ne.symm he]

/-- What a list of nodes contributed is gone after it was dropped, in whatever order. -/
theorem records_dropNodes (nodes : List NodeId) : ∀ {a : Analysis} {ns : List NodeId}
    {bs : List (Declaration NodeId)} {refs : List (NodeId × NodeId)}, Records a t ns bs refs →
    t.root ∉ nodes → Records (nodes.foldl Analysis.dropNode a) t (ns.filter (· ∉ nodes))
      (bs.filter (·.identifier ∉ nodes)) (refs.filter (·.1 ∉ nodes)) := by
  induction nodes with
  | nil =>
    intro a ns bs refs h _
    simpa using h
  | cons n nodes ih =>
    intro a ns bs refs h hroot
    rw [List.mem_cons, not_or] at hroot
    have := ih (h.dropNode (Ne.symm hroot.1)) hroot.2
    simpa [List.filter_filter, not_or, Bool.and_comm] using this

/-- What dropping a node of the subtree keeps, subtracting the subtree keeps. -/
theorem subtract_induction {P : Analysis → Prop} (hdrop : ∀ m ∈ t.walkFrom n, ∀ a, P a → P (a.dropNode m))
    (hstamp : ∀ {a} (version : Option Nat), P a → P { a with version }) (ha : P a) : P (a.subtract t n) := by
  unfold Analysis.subtract
  split
  · exact hstamp _ (List.foldlRecOn _ _ ha fun a h m hm => hdrop m hm a h)
  · exact ha

end DeadCode
