import DeadCode.Proofs.Names.Declarers
import DeadCode.Proofs.Names.Records

/-!
The survey of a crawl binds the declarations of the walk one after the other: the first declaration of a
name in a scope introduces it, any later one refers to the first. Main statement: `surveyed_visits`, which
also says which exports and uses the survey leaves to be resolved.
-/

namespace DeadCode

open DeadCode.Tree

/-! ## First declarations -/

namespace Tree

variable {t : Tree} {ds : List (Declaration NodeId)} {d : Declaration NodeId} {s : NodeId} {name : String}

theorem firstOf?_append (t : Tree) (ds es : List (Declaration NodeId)) (s : NodeId) (name : String) :
    t.firstOf? (ds ++ es) s name = (t.firstOf? ds s name).or (t.firstOf? es s name) :=
  List.find?_append

theorem firstOf?_spec (h : t.firstOf? ds s name = some d) :
    d ∈ ds ∧ d.target = s ∧ t.text d.identifier = name :=
  ⟨List.mem_of_find?_eq_some h, by simpa using List.find?_some h⟩

theorem firstOf?_isSome (h : d ∈ ds) :
    ∃ e, t.firstOf? ds d.target (t.text d.identifier) = some e := by
  cases he : t.firstOf? ds d.target (t.text d.identifier) with
  | some e => exact ⟨e, rfl⟩
  | none => exact absurd (List.find?_eq_none.mp he d h) (by simp)

/-- A first declaration introduces its name. -/
theorem firstOf?_introducing (t : Tree) (ds : List (Declaration NodeId)) (s : NodeId) (name : String) :
    t.firstOf? (t.introducing ds) s name = t.firstOf? ds s name := by
  cases h : t.firstOf? ds s name with
  | none =>
    refine List.find?_eq_none.mpr fun d hd => ?_
    exact List.find?_eq_none.mp h d (List.mem_filter.mp hd).1
  | some d =>
    obtain ⟨_, hs, hn⟩ := firstOf?_spec h
    obtain ⟨hp, as, bs, he, has⟩ := List.find?_eq_some_iff_append.mp h
    rw [firstOf?, introducing, List.find?_filter]
    refine List.find?_eq_some_iff_append.mpr ⟨?_, as, bs, he, fun a ha => ?_⟩
    · simp [hs, hn, h]
    · have := has a ha
      simp only [Bool.not_eq_true'] at this ⊢
      simp [this]

theorem introducing_concat (hd : d ∉ ds) : t.introducing (ds ++ [d]) = t.introducing ds ++
    if (t.firstOf? ds d.target (t.text d.identifier)).isSome then [] else [d] := by
  rw [introducing, List.filter_append]
  congr 1
  · refine List.filter_congr fun e he => ?_
    obtain ⟨f, hf⟩ := firstOf?_isSome (t := t) he
    rw [firstOf?_append, hf, Option.some_or]
  · rw [List.filter_singleton, firstOf?_append]
    cases hf : t.firstOf? ds d.target (t.text d.identifier) with
    | none => simp [firstOf?]
    | some e =>
      have : e ≠ d := fun h => hd (h ▸ (firstOf?_spec hf).1)
      simp [this]

theorem repeating_concat (hd : d ∉ ds) : t.repeating (ds ++ [d]) = t.repeating ds ++
    ((t.firstOf? ds d.target (t.text d.identifier)).map fun e => (d.identifier, e.identifier)).toList := by
  rw [repeating, List.filterMap_append]
  congr 1
  · refine List.filterMap_congr fun e he => ?_
    obtain ⟨f, hf⟩ := firstOf?_isSome (t := t) he
    rw [firstOf?_append, hf, Option.some_or]
  · rw [List.filterMap_cons, List.filterMap_nil, firstOf?_append]
    cases hf : t.firstOf? ds d.target (t.text d.identifier) with
    | none => simp [firstOf?]
    | some e =>
      have : e ≠ d := fun h => hd (h ▸ (firstOf?_spec hf).1)
      simp [this]

end Tree

/-! ## Binding one declaration -/

namespace Analysis

/-- A new binding in the table of its scope. -/
def introduce (a : Analysis) (t : Tree) (d : Declaration ScopeId) : Analysis :=
  { a with
    bindings := a.bindings.push
      { name := t.text d.identifier, keyword := d.keyword, identifier := d.identifier, path := d.path
        construct := d.construct, scope := d.target, coDeclared := d.coDeclared }
    declared := a.declared.insert d.identifier a.bindings.size }.modifyScope d.target fun sc =>
      { sc with names := sc.names.insert (t.text d.identifier) a.bindings.size }

end Analysis

theorem Survey.bind_eq (s : Survey) (t : Tree) (d : Declaration ScopeId) : s.bind t d =
    { s with
      declaring := d.identifier :: s.declaring
      analysis := match s.analysis.own? d.target (t.text d.identifier) with
        | some b => s.analysis.reference b d.identifier
        | none => s.analysis.introduce t d } := by
  cases h : s.analysis.own? d.target (t.text d.identifier) with
  | some b => simp only [Survey.bind, h]
  | none =>
    simp only [Survey.bind, h]
    rfl

/-- The same declaration with another name for its scope. -/
def Declaration.toScope {σ τ : Type} (d : Declaration σ) (target : τ) : Declaration τ :=
  { d with target }

@[simp] theorem Declaration.identifier_toScope {σ τ : Type} (d : Declaration σ) (target : τ) :
    (d.toScope target).identifier = d.identifier := rfl

@[simp] theorem Declaration.target_toScope {σ τ : Type} (d : Declaration σ) (target : τ) :
    (d.toScope target).target = target := rfl

section Introduce

variable {a : Analysis} {t : Tree} {ns : List NodeId} {bs : List (Declaration NodeId)}
  {refs : List (NodeId × NodeId)} {d : Declaration ScopeId} {m : NodeId}

theorem binding_introduce (a : Analysis) (t : Tree) (d : Declaration ScopeId) (b : BindingId) :
    (a.introduce t d).binding b = if b = a.bindings.size then
      { name := t.text d.identifier, keyword := d.keyword, identifier := d.identifier, path := d.path
        construct := d.construct, scope := d.target, coDeclared := d.coDeclared }
    else a.binding b :=
  Analysis.getD_push ..

theorem identifierOf_introduce {b : BindingId} (hb : b < a.bindings.size) :
    (a.introduce t d).identifierOf b = a.identifierOf b := by
  rw [Analysis.identifierOf, binding_introduce, if_neg (ne_of_lt hb), Analysis.identifierOf]

theorem identifierOf_introduce_new : (a.introduce t d).identifierOf a.bindings.size = d.identifier := by
  rw [Analysis.identifierOf, binding_introduce, if_pos rfl]

theorem bindings_size_introduce : (a.introduce t d).bindings.size = a.bindings.size + 1 :=
  Array.size_push ..

theorem scope_introduce (s : ScopeId) : (a.introduce t d).scope s =
    if d.target = s ∧ s < a.scopes.size then
      { a.scope s with names := (a.scope s).names.insert (t.text d.identifier) a.bindings.size }
    else a.scope s :=
  Analysis.scope_modifyScope ..

theorem Ledger.introduce (h : Ledger a refs) (hfresh : ∀ b < a.bindings.size, a.identifierOf b ≠ d.identifier) :
    Ledger (a.introduce t d) refs := by
  have hsize := bindings_size_introduce (a := a) (t := t) (d := d)
  have side : ∀ {b}, b < (a.introduce t d).bindings.size → b = a.bindings.size ∨ b < a.bindings.size := by
    intro b hb
    rw [hsize] at hb
    exact (Nat.lt_succ_iff_lt_or_eq.mp hb).symm
  refine { injective := fun x hx y hy he => ?_, references := fun x hx => ?_
           resolved := fun n => ?_, resolved_lt := fun n x hx => ?_ }
  · rcases side hx with rfl | hx <;> rcases side hy with rfl | hy
    · rfl
    · rw [identifierOf_introduce_new, identifierOf_introduce hy] at he
      exact absurd he.symm (hfresh y hy)
    · rw [identifierOf_introduce_new, identifierOf_introduce hx] at he
      exact absurd he (hfresh x hx)
    · rw [identifierOf_introduce hx, identifierOf_introduce hy] at he
      exact h.injective x hx y hy he
  · rcases side hx with rfl | hx
    · -- nothing refers to the new binding, since what is referred to is bound
      have : refs.filter (·.2 = d.identifier) = [] := by
        refine List.filter_eq_nil_iff.mpr fun r hr hi => ?_
        have hmem : r.2 ∈ (refs.filter (·.1 = r.1)).map Prod.snd :=
          List.mem_map_of_mem (List.mem_filter.mpr ⟨hr, by simp⟩)
        rw [← h.resolved] at hmem
        obtain ⟨b, hb, he⟩ := List.mem_map.mp hmem
        exact hfresh b (h.resolved_lt _ b hb) (he.trans (by simpa using hi))
      rw [identifierOf_introduce_new, this, binding_introduce, if_pos rfl]
      rfl
    · rw [identifierOf_introduce hx, binding_introduce, if_neg (ne_of_lt hx)]
      exact h.references x hx
  · rw [← h.resolved n]
    exact List.map_congr_left fun x hx => identifierOf_introduce (h.resolved_lt n x hx)
  · rw [hsize]
    exact Nat.lt_succ_of_lt (h.resolved_lt n x hx)

theorem declared_introduce (i : NodeId) : (a.introduce t d).declared.get? i =
    if d.identifier = i then some a.bindings.size else a.declared.get? i :=
  Table.get?_insert ..

theorem node_introduce (s : ScopeId) : ((a.introduce t d).scope s).node = (a.scope s).node := by
  rw [scope_introduce]
  split <;> rfl

theorem scopes_size_introduce : (a.introduce t d).scopes.size = a.scopes.size :=
  Analysis.scopes_size_modifyScope ..

/-- A binding only adds its own entry, to the table of its scope. -/
theorem mem_names_introduce (hnone : a.own? d.target (t.text d.identifier) = none) {s : ScopeId}
    {e : String × BindingId} (he : e ∈ ((a.introduce t d).scope s).names.entries) :
    e ∈ (a.scope s).names.entries ∨ s = d.target ∧ e = (t.text d.identifier, a.bindings.size) := by
  rw [scope_introduce] at he
  split at he
  · rename_i hs
    have hown : (a.scope s).names.get? (t.text d.identifier) = none := hs.1 ▸ hnone
    rw [Table.entries_insert_of_none _ hown] at he
    rcases List.mem_append.mp he with he | he
    · exact .inl he
    · exact .inr ⟨hs.1.symm, List.mem_singleton.mp he⟩
  · exact .inl he

namespace Records

variable (h : Records a t ns bs refs) (hfresh : ∀ b < a.bindings.size, a.identifierOf b ≠ d.identifier)
  (hm : a.scopeOf.get? m = some d.target) (hnone : a.own? d.target (t.text d.identifier) = none)

include h

include hfresh in
theorem declared_introduce_old {i : NodeId} {b : BindingId} (hb : a.declared.get? i = some b) :
    (a.introduce t d).declared.get? i = some b := by
  obtain ⟨hlt, rfl⟩ := h.declared hb
  rw [declared_introduce, if_neg (Ne.symm (hfresh b hlt)), hb]

include hm in
theorem target_eq_iff {n : NodeId} {s : ScopeId} (hs : a.scopeOf.get? n = some s) : d.target = s ↔ m = n := by
  refine ⟨fun he => ?_, fun he => ?_⟩
  · subst he
    exact (h.scopes.node hm).symm.trans (h.scopes.node hs)
  · subst he
    exact Option.some.inj (hm.symm.trans hs)

include hm hnone in
theorem distinct_introduce : ∀ e ∈ bs ++ [d.toScope m], ∀ f ∈ bs ++ [d.toScope m], e.target = f.target →
    t.text e.identifier = t.text f.identifier → e = f := by
  have hfirst : t.firstOf? bs m (t.text d.identifier) = none := by
    have := h.own?_map hm (t.text d.identifier)
    rw [hnone, Option.map_none] at this
    exact Option.map_eq_none_iff.mp this.symm
  have hnew : ∀ e ∈ bs, e.target = m → t.text e.identifier ≠ t.text d.identifier := fun e he htarget htext =>
    List.find?_eq_none.mp hfirst e he (by simpa using ⟨htarget, htext⟩)
  intro e he f hf htarget htext
  rcases List.mem_append.mp he with he | he <;> rcases List.mem_append.mp hf with hf | hf
  · exact h.distinct e he f hf htarget htext
  · obtain rfl := List.mem_singleton.mp hf
    exact absurd htext (hnew e he htarget)
  · obtain rfl := List.mem_singleton.mp he
    exact absurd htext.symm (hnew f hf htarget.symm)
  · rw [List.mem_singleton.mp he, List.mem_singleton.mp hf]

include hm hnone in
theorem names_introduce {n : NodeId} {s : ScopeId} (hs : a.scopeOf.get? n = some s) :
    ((a.introduce t d).scope s).names.entries.map (fun e => (e.1, (a.introduce t d).identifierOf e.2)) =
      ((bs ++ [d.toScope m]).filter (·.target = n)).map fun d => (t.text d.identifier, d.identifier) := by
  have hmap : (a.scope s).names.entries.map (fun e => (e.1, (a.introduce t d).identifierOf e.2)) =
      (bs.filter (·.target = n)).map fun d => (t.text d.identifier, d.identifier) := by
    rw [← h.names hs]
    exact List.map_congr_left fun e he => by
      rw [identifierOf_introduce (h.declared (h.entry hs e he)).1]
  rw [List.filter_append, List.map_append, ← hmap, scope_introduce]
  by_cases he : d.target = s
  · have hn : m = n := (h.target_eq_iff hm hs).mp he
    subst he
    rw [if_pos ⟨rfl, h.scopes.lt hm⟩, Table.entries_insert_of_none _ hnone, List.map_append]
    simp [hn, Declaration.toScope, identifierOf_introduce_new]
  · have hn : m ≠ n := fun hn => he ((h.target_eq_iff hm hs).mpr hn)
    rw [if_neg (fun hc => he hc.1)]
    simp [hn, Declaration.toScope]

include hfresh hnone in
theorem entry_introduce {n : NodeId} {s : ScopeId} (hs : a.scopeOf.get? n = some s) (e : String × BindingId)
    (he : e ∈ ((a.introduce t d).scope s).names.entries) :
    (a.introduce t d).declared.get? ((a.introduce t d).identifierOf e.2) = some e.2 := by
  rcases mem_names_introduce hnone he with he | ⟨_, rfl⟩
  · have hentry := h.entry hs e he
    rw [identifierOf_introduce (h.declared hentry).1]
    exact h.declared_introduce_old hfresh hentry
  · rw [identifierOf_introduce_new, declared_introduce, if_pos rfl]

theorem declared_lt_introduce {i : NodeId} {b : BindingId}
    (hb : (a.introduce t d).declared.get? i = some b) :
    b < (a.introduce t d).bindings.size ∧ (a.introduce t d).identifierOf b = i := by
  rw [declared_introduce] at hb
  rw [bindings_size_introduce]
  split at hb
  · obtain rfl := Option.some.inj hb
    exact ⟨Nat.lt_succ_self _, identifierOf_introduce_new.trans ‹_›⟩
  · obtain ⟨hlt, hi⟩ := h.declared hb
    exact ⟨Nat.lt_succ_of_lt hlt, (identifierOf_introduce hlt).trans hi⟩

include hfresh hm in
theorem record_introduce (e : Declaration NodeId) (he : e ∈ bs ++ [d.toScope m]) :
    ∃ b, (a.introduce t d).declared.get? e.identifier = some b ∧
      Describes (a.introduce t d) t ((a.introduce t d).binding b) e := by
  rcases List.mem_append.mp he with he | he
  · obtain ⟨b, hb, hdesc⟩ := h.record e he
    refine ⟨b, h.declared_introduce_old hfresh hb, ?_⟩
    rw [binding_introduce, if_neg (ne_of_lt (h.declared hb).1)]
    exact { hdesc with
      scope_lt := hdesc.scope_lt.trans_eq scopes_size_introduce.symm
      scope := (node_introduce _).trans hdesc.scope }
  · obtain rfl := List.mem_singleton.mp he
    refine ⟨a.bindings.size, (declared_introduce d.identifier).trans (if_pos rfl), ?_⟩
    rw [binding_introduce, if_pos rfl]
    exact ⟨rfl, rfl, rfl, rfl, rfl, rfl, (h.scopes.lt hm).trans_eq scopes_size_introduce.symm,
      (node_introduce _).trans (h.scopes.node hm)⟩

include hfresh hm hnone in
theorem introduce : Records (a.introduce t d) t ns (bs ++ [d.toScope m]) refs where
  scopes := h.scopes.congr rfl scopes_size_introduce fun s => by
    rw [scope_introduce]
    split <;> exact ⟨_, _, rfl⟩
  ledger := h.ledger.introduce hfresh
  distinct := h.distinct_introduce hm hnone
  names := h.names_introduce hm hnone
  entry := h.entry_introduce hfresh hnone
  declared := h.declared_lt_introduce
  record := h.record_introduce hfresh hm

end Records

end Introduce

/-! ## Declarations with named scopes -/

section Rename

variable {σ τ : Type} (f : σ → τ) (t : Tree)

def Declaration.rename (d : Declaration σ) : Declaration τ := d.toScope (f d.target)

def Visit.rename (v : Visit σ) : Visit τ := ⟨v.node, f v.outer, f v.inner⟩

namespace Visit

theorem map_rename_declares (target : σ) (keyword : String) (construct : Construct) (path : NodeId)
    (is : List NodeId) : (is.map (declares target keyword construct t path)).map (Declaration.rename f) =
      is.map (declares (f target) keyword construct t path) := by
  rw [List.map_map]
  rfl

theorem ofName_rename (v : Visit σ) (target : σ) (keyword : String) (construct : Construct) :
    (v.ofName t target keyword construct).map (Declaration.rename f) =
      (v.rename f).ofName t (f target) keyword construct :=
  map_rename_declares ..

theorem parameters_rename (v : Visit σ) :
    (v.parameters t).map (Declaration.rename f) = (v.rename f).parameters t :=
  map_rename_declares ..

theorem ofDeclarator_rename (v : Visit σ) (hoist : σ) :
    (v.ofDeclarator hoist t).map (Declaration.rename f) = (v.rename f).ofDeclarator (f hoist) t := by
  simp only [ofDeclarator, List.map_map, rename]
  refine List.map_congr_left fun i _ => ?_
  simp only [Function.comp_apply, Declaration.rename, Declaration.toScope, apply_ite f]
  rfl

theorem ofLoop_rename (v : Visit σ) (hoist : σ) :
    (v.ofLoop hoist t).map (Declaration.rename f) = (v.rename f).ofLoop (f hoist) t := by
  simp only [ofLoop, rename]
  cases t.child? v.node .kind with
  | none => rfl
  | some k =>
    simp only [map_rename_declares, apply_ite f]

theorem ofSpecifier_rename (v : Visit σ) (s : NodeId) :
    (v.ofSpecifier t s).map (Declaration.rename f) = (v.rename f).ofSpecifier t s := by
  simp only [ofSpecifier]
  split
  · cases (t.child? s .alias).or (t.child? s .name) with
    | none => rfl
    | some i =>
      by_cases hi : t.kind i = .identifier
      · simp only [hi, if_true, List.map_cons, List.map_nil]
        rfl
      · simp [hi]
  · rfl

theorem ofClauseMember_rename (v : Visit σ) (m : NodeId) :
    (v.ofClauseMember t m).map (Declaration.rename f) = (v.rename f).ofClauseMember t m := by
  unfold ofClauseMember
  split
  · rfl
  · exact map_rename_declares ..
  · rw [List.map_flatMap]
    exact List.flatMap_congr fun s _ => ofSpecifier_rename f t v s
  · rfl

theorem ofImport_rename (v : Visit σ) :
    (v.ofImport t).map (Declaration.rename f) = (v.rename f).ofImport t := by
  rw [ofImport_eq, ofImport_eq, List.map_flatMap]
  refine List.flatMap_congr fun c _ => ?_
  unfold ofImportPart
  split
  · exact map_rename_declares ..
  · rw [List.map_flatMap]
    exact List.flatMap_congr fun m _ => ofClauseMember_rename f t v m
  · rfl

/-- What a node declares does not depend on what scopes are called. -/
theorem declarationsAt_rename (v : Visit σ) (hoist : σ) :
    (v.declarationsAt hoist t).map (Declaration.rename f) = (v.rename f).declarationsAt (f hoist) t := by
  unfold declarationsAt
  simp only [rename]
  split
  · exact ofDeclarator_rename f t v hoist
  all_goals try
    rw [List.map_append, ofName_rename, parameters_rename]
    rfl
  · exact parameters_rename f t v
  all_goals try exact ofName_rename ..
  · by_cases hn : (t.node v.node).named = true
    · simp only [hn, if_true]
      exact ofName_rename ..
    · simp [hn]
  · exact map_rename_declares ..
  · exact ofLoop_rename f t v hoist
  · exact ofImport_rename f t v
  · rfl

end Visit
end Rename

end DeadCode
