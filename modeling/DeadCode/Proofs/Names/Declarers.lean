import DeadCode.Proofs.Names.Resolution
import DeadCode.Proofs.Tree.Consistent

/-!
Where declared identifiers stand. Between a declarer and an identifier that it declares there are only
nodes of kinds that carry names, patterns and parts of an import, and no declarer is of such a kind. So an
identifier has one declarer (`Carried.unique`), which comes before it in a walk, and no identifier is
declared twice (`declaring_nodup`).
-/

namespace DeadCode

/-- Kinds that stand between a declarer and the identifiers it declares. -/
def Kind.carries : Kind → Bool
  | .objectPattern | .arrayPattern | .formalParameters | .restPattern | .pairPattern
  | .assignmentPattern | .objectAssignmentPattern | .requiredParameter | .optionalParameter
  | .importClause | .importRequireClause | .namespaceImport | .namedImports | .importSpecifier => true
  | _ => false

/-- Kinds of nodes that introduce names. -/
def Kind.declares : Kind → Bool
  | .variableDeclarator | .functionDeclaration | .generatorFunctionDeclaration | .functionExpression
  | .plainFunction | .generatorFunction | .arrowFunction | .methodDefinition | .classDeclaration
  | .abstractClassDeclaration | .plainClass | .catchClause | .forInStatement | .importStatement => true
  | _ => false

theorem Kind.not_carries_of_declares {k : Kind} (h : k.declares = true) : k.carries = false := by
  cases k <;> first | rfl | cases h

namespace Tree

/-- `n` lies strictly below `m`, and only nodes that carry names lie between. -/
inductive Carried (t : Tree) (m : NodeId) : NodeId → Prop
  | child {c : NodeId} : t.parent c = some m → Carried t m c
  | step {p c : NodeId} : t.parent c = some p → (t.kind p).carries = true → Carried t m p → Carried t m c

variable {t : Tree} {m m' n c i : NodeId}

namespace Carried

theorem to_below (h : t.Carried m n) : t.Below m n := by
  induction h with
  | child hp => exact .of_parent hp
  | step hp _ _ ih => exact .step hp ih

theorem trans (h : t.Carried m n) (hk : (t.kind n).carries = true) (hi : t.Carried n i) :
    t.Carried m i := by
  induction hi with
  | child hp => exact .step hp hk h
  | step hp hkp _ ih => exact .step hp hkp ih

/-- What lies between is carried too. -/
theorem of_below (h : t.Carried m n) (hc : t.Below c n) (hm : ¬ t.Below c m) : t.Carried m c := by
  induction h with
  | child hp =>
    cases hc with
    | refl => exact .child hp
    | step hp' hc =>
      obtain rfl := Option.some.inj (hp.symm.trans hp')
      exact absurd hc hm
  | step hp hk h ih =>
    cases hc with
    | refl => exact .step hp hk h
    | step hp' hc =>
      obtain rfl := Option.some.inj (hp.symm.trans hp')
      exact ih hc

/-- An identifier is carried to one node only that does not itself carry names. -/
theorem unique (h : t.Carried m n) (hm : (t.kind m).carries = false) (h' : t.Carried m' n)
    (hm' : (t.kind m').carries = false) : m = m' := by
  induction h with
  | child hp =>
    cases h' with
    | child hp' => exact Option.some.inj (hp.symm.trans hp')
    | step hp' hk _ =>
      obtain rfl := Option.some.inj (hp.symm.trans hp')
      rw [hm] at hk
      cases hk
  | step hp hk _ ih =>
    cases h' with
    | child hp' =>
      obtain rfl := Option.some.inj (hp.symm.trans hp')
      rw [hm'] at hk
      cases hk
    | step hp' _ h' =>
      obtain rfl := Option.some.inj (hp.symm.trans hp')
      exact ih h'

theorem ne (ht : t.Consistent) (hm : t.Below t.root m) (h : t.Carried m n) : m ≠ n := by
  rintro rfl
  cases h with
  | child hp => exact not_below_of_parent ht hm hp .refl
  | step hp _ h => exact not_below_of_parent ht (hm.trans h.to_below) hp h.to_below

end Carried

theorem mem_children_of_child? {f : Field} (h : t.child? n f = some c) : c ∈ t.children n :=
  List.mem_of_find?_eq_some h

theorem field_of_child? {f : Field} (h : t.child? n f = some c) : (t.node c).field = some f := by
  simpa using List.find?_some h

theorem parent_of_child? (ht : t.Consistent) {f : Field} (h : t.child? n f = some c) :
    t.parent c = some n :=
  (ht.mem_children n c).mp (mem_children_of_child? h)

theorem parent_of_namedChild (ht : t.Consistent) (h : c ∈ t.namedChildren n) : t.parent c = some n :=
  (ht.mem_children n c).mp (List.mem_filter.mp h).1

theorem namedChildren_nodup (ht : t.Consistent) (n : NodeId) : (t.namedChildren n).Nodup :=
  (ht.nodup n).filter _

/-! ## Patterns -/

/-- The names of the pattern in a field, as `patternNamesFrom` goes on to them. -/
def patternNamesIn (t : Tree) (fuel : Nat) (n : NodeId) (f : Field) : List NodeId :=
  match t.child? n f with
  | none => []
  | some c => t.patternNamesFrom fuel c

theorem mem_patternNamesIn {fuel : Nat} {f : Field} :
    i ∈ t.patternNamesIn fuel n f ↔ ∃ c, t.child? n f = some c ∧ i ∈ t.patternNamesFrom fuel c := by
  unfold patternNamesIn
  cases t.child? n f <;> simp

theorem mem_patternNamesFrom (ht : t.Consistent) {fuel : Nat} (h : i ∈ t.patternNamesFrom fuel n) :
    i = n ∨ (t.kind n).carries = true ∧ t.Carried n i := by
  induction fuel generalizing n with
  | zero => simp [patternNamesFrom] at h
  | succ fuel ih =>
    have down : ∀ {c}, t.parent c = some n → i ∈ t.patternNamesFrom fuel c → t.Carried n i := by
      intro c hp hi
      rcases ih hi with rfl | ⟨hk, hc⟩
      · exact .child hp
      · exact (Carried.child hp).trans hk hc
    have through : ∀ {f}, i ∈ t.patternNamesIn fuel n f → t.Carried n i := by
      intro f hi
      obtain ⟨c, hc, hi⟩ := mem_patternNamesIn.mp hi
      exact down (parent_of_child? ht hc) hi
    rw [patternNamesFrom] at h
    split at h <;> rename_i hk
    · exact .inl (List.mem_singleton.mp h)
    · exact .inl (List.mem_singleton.mp h)
    all_goals try
      refine .inr ⟨by rw [hk]; rfl, ?_⟩
      first
        | exact through h
        | obtain ⟨c, hc, hi⟩ := List.mem_flatMap.mp h
          exact down (parent_of_namedChild ht hc) hi
    cases h

theorem mem_patternNames (ht : t.Consistent) {f : Field} (h : i ∈ t.patternNames n f) :
    ∃ c, t.child? n f = some c ∧ t.Carried n i ∧ t.Below c i := by
  unfold patternNames at h
  split at h
  · cases h
  · rename_i c hc
    have hp := parent_of_child? ht hc
    refine ⟨c, hc, ?_⟩
    rcases mem_patternNamesFrom ht h with rfl | ⟨hk, hi⟩
    · exact ⟨.child hp, .refl⟩
    · exact ⟨(Carried.child hp).trans hk hi, hi.to_below⟩

/-- Lists of nodes below different children of one node have no node in common. -/
theorem nodup_flatMap_children (ht : t.Consistent) (hn : t.Below t.root n) {cs : List NodeId}
    (hcs : cs.Nodup) (hp : ∀ c ∈ cs, t.parent c = some n) {f : NodeId → List NodeId}
    (hf : ∀ c ∈ cs, (f c).Nodup) (hb : ∀ c ∈ cs, ∀ x ∈ f c, t.Below c x) : (cs.flatMap f).Nodup := by
  refine List.nodup_flatMap.mpr ⟨hf, hcs.imp_of_mem ?_⟩
  intro a b ha hb' hne x hxa hxb
  exact siblings_apart ht hn (hp a ha) (hp b hb') hne (hb a ha x hxa) (hb b hb' x hxb)

theorem patternNamesFrom_nodup (ht : t.Consistent) {fuel : Nat} (hn : t.Below t.root n) :
    (t.patternNamesFrom fuel n).Nodup := by
  induction fuel generalizing n with
  | zero => exact List.nodup_nil
  | succ fuel ih =>
    have below : ∀ c x, x ∈ t.patternNamesFrom fuel c → t.Below c x := by
      intro c x hx
      rcases mem_patternNamesFrom ht hx with rfl | ⟨_, hx⟩
      · exact .refl
      · exact hx.to_below
    have many : ((t.namedChildren n).flatMap (t.patternNamesFrom fuel)).Nodup :=
      nodup_flatMap_children ht hn (namedChildren_nodup ht n) (fun c hc => parent_of_namedChild ht hc)
        (fun c hc => ih (.step (parent_of_namedChild ht hc) hn)) (fun c _ => below c)
    have one : ∀ f, (t.patternNamesIn fuel n f).Nodup := by
      intro f
      unfold patternNamesIn
      split
      · exact List.nodup_nil
      · rename_i c hc
        exact ih (.step (parent_of_child? ht hc) hn)
    rw [patternNamesFrom]
    split <;> first | exact List.nodup_singleton n | exact many | exact one _ | exact List.nodup_nil

theorem patternNames_nodup (ht : t.Consistent) (hn : t.Below t.root n) (f : Field) :
    (t.patternNames n f).Nodup := by
  unfold patternNames
  split
  · exact List.nodup_nil
  · rename_i c hc
    exact patternNamesFrom_nodup ht (.step (parent_of_child? ht hc) hn)

/-- Names in different fields are different nodes. -/
theorem patternNames_disjoint (ht : t.Consistent) (hn : t.Below t.root n) {f g : Field} (hfg : f ≠ g) :
    (t.patternNames n f).Disjoint (t.patternNames n g) := by
  intro i hf hg
  obtain ⟨c, hc, _, hci⟩ := mem_patternNames ht hf
  obtain ⟨d, hd, _, hdi⟩ := mem_patternNames ht hg
  refine siblings_apart ht hn (parent_of_child? ht hc) (parent_of_child? ht hd) ?_ hci hdi
  rintro rfl
  exact hfg (Option.some.inj ((field_of_child? hc).symm.trans (field_of_child? hd)))

end Tree

/-! ## Declarations -/

open DeadCode.Tree

namespace Visit

variable {σ : Type} {t : Tree} {v : Visit σ} {hoist : σ} {d : Declaration σ}

@[simp] theorem identifier_declares (target : σ) (keyword : String) (construct : Construct) (t : Tree)
    (path i : NodeId) : (declares target keyword construct t path i).identifier = i := rfl

@[simp] theorem map_identifier_declares (target : σ) (keyword : String) (construct : Construct) (t : Tree)
    (path : NodeId) (is : List NodeId) :
    (is.map (declares target keyword construct t path)).map Declaration.identifier = is := by
  simp [Function.comp_def]

theorem identifiers_ofDeclarator (v : Visit σ) (hoist : σ) (t : Tree) :
    (v.ofDeclarator hoist t).map Declaration.identifier = t.patternNames v.node .name := by
  simp [ofDeclarator, Function.comp_def]

theorem identifiers_ofLoop (v : Visit σ) (hoist : σ) (t : Tree) :
    (v.ofLoop hoist t).map Declaration.identifier =
      if (t.child? v.node .kind).isSome then t.patternNames v.node .left else [] := by
  unfold ofLoop
  cases t.child? v.node .kind with
  | none => rfl
  | some k => exact map_identifier_declares ..

theorem identifiers_ofName (v : Visit σ) (t : Tree) (target : σ) (keyword : String) (construct : Construct) :
    (v.ofName t target keyword construct).map Declaration.identifier = (t.child? v.node .name).toList := by
  simp [ofName, Function.comp_def]

theorem identifiers_parameters (v : Visit σ) (t : Tree) : (v.parameters t).map Declaration.identifier =
    t.patternNames v.node .parameters ++ t.patternNames v.node .parameter := by
  simp only [parameters, map_identifier_declares]

/-! ### Imports -/

theorem ofSpecifier_eq (v : Visit σ) (t : Tree) (s : NodeId) : v.ofSpecifier t s = [] ∨
    t.kind s = .importSpecifier ∧ ∃ i, ((t.child? s .alias).or (t.child? s .name) = some i) ∧
      t.kind i = .identifier ∧ v.ofSpecifier t s = [declares v.outer "import" .importSpecifier t s i] := by
  unfold ofSpecifier
  split
  · rename_i hk
    split
    · rename_i i hi
      split
      · rename_i hki
        exact .inr ⟨hk, i, hi, hki, rfl⟩
      · exact .inl rfl
    · exact .inl rfl
  · exact .inl rfl

theorem identifier_of_specifier {s : NodeId} (h : d ∈ v.ofSpecifier t s) :
    (t.child? s .alias).or (t.child? s .name) = some d.identifier := by
  rcases v.ofSpecifier_eq t s with he | ⟨_, i, hi, _, he⟩
  · rw [he] at h
    cases h
  · rw [he, List.mem_singleton] at h
    rw [h]
    exact hi

theorem mem_ofSpecifier (ht : t.Consistent) {s : NodeId} (h : d ∈ v.ofSpecifier t s) :
    t.kind s = .importSpecifier ∧ t.parent d.identifier = some s ∧ d.path = s ∧ d.target = v.outer ∧
      d.construct = .importSpecifier ∧ t.kind d.identifier = .identifier := by
  rcases v.ofSpecifier_eq t s with he | ⟨hk, i, hi, hki, he⟩
  · rw [he] at h
    cases h
  · rw [he] at h
    obtain rfl := List.mem_singleton.mp h
    refine ⟨hk, ?_, rfl, rfl, rfl, hki⟩
    rcases Option.or_eq_some_iff.mp hi with h | ⟨_, h⟩
    · exact parent_of_child? ht h
    · exact parent_of_child? ht h

/-- A member of an import clause: a default import, a namespace or a list of specifiers. -/
theorem mem_ofClauseMember (ht : t.Consistent) {m : NodeId} (h : d ∈ v.ofClauseMember t m) :
    d.target = v.outer ∧ t.kind d.identifier = .identifier ∧
      ((t.kind m = .identifier ∧ d.identifier = m ∧ d.path = m ∧ d.construct = .importDefault) ∨
        (t.kind m = .namespaceImport ∧ t.parent d.identifier = some m ∧ d.path = m ∧
          d.construct = .other) ∨
        (t.kind m = .namedImports ∧ t.parent d.path = some m ∧ t.kind d.path = .importSpecifier ∧
          t.parent d.identifier = some d.path ∧ d.construct = .importSpecifier)) := by
  unfold ofClauseMember at h
  split at h <;> rename_i hk
  · obtain rfl := List.mem_singleton.mp h
    exact ⟨rfl, hk, .inl ⟨hk, rfl, rfl, rfl⟩⟩
  · obtain ⟨i, hi, rfl⟩ := List.mem_map.mp h
    obtain ⟨hi, hki⟩ := List.mem_filter.mp hi
    exact ⟨rfl, by simpa using hki, .inr (.inl ⟨hk, parent_of_namedChild ht hi, rfl, rfl⟩)⟩
  · obtain ⟨s, hs, hd⟩ := List.mem_flatMap.mp h
    obtain ⟨hks, hp, rfl, htarget, hc, hki⟩ := mem_ofSpecifier ht hd
    exact ⟨htarget, hki, .inr (.inr ⟨hk, parent_of_namedChild ht hs, hks, hp, hc⟩)⟩
  · cases h

theorem below_of_mem_ofClauseMember (ht : t.Consistent) {m : NodeId} (h : d ∈ v.ofClauseMember t m) :
    d.identifier = m ∨ (t.kind m).carries = true ∧ t.Carried m d.identifier := by
  obtain ⟨_, _, ⟨_, h, _⟩ | ⟨hk, h, _⟩ | ⟨hk, hp, hks, h, _⟩⟩ := mem_ofClauseMember ht h
  · exact .inl h
  · exact .inr ⟨by rw [hk]; rfl, .child h⟩
  · exact .inr ⟨by rw [hk]; rfl, .step h (by rw [hks]; rfl) (.child hp)⟩

theorem ofClauseMember_nodup (ht : t.Consistent) {m : NodeId} (hm : t.Below t.root m) :
    ((v.ofClauseMember t m).map Declaration.identifier).Nodup := by
  unfold ofClauseMember
  split
  · exact List.nodup_singleton _
  · rw [map_identifier_declares]
    exact (namedChildren_nodup ht m).filter _
  · rw [List.map_flatMap]
    refine nodup_flatMap_children ht hm (namedChildren_nodup ht m) (fun c hc => parent_of_namedChild ht hc)
      (fun s _ => ?_) (fun s _ i hi => ?_)
    · rcases v.ofSpecifier_eq t s with he | ⟨_, i, _, _, he⟩
      · rw [he]
        exact List.nodup_nil
      · rw [he]
        exact List.nodup_singleton _
    · obtain ⟨d, hd, rfl⟩ := List.mem_map.mp hi
      exact .of_parent (mem_ofSpecifier ht hd).2.1
  · exact List.nodup_nil

/-- The declarations of one named child of an import statement. -/
def ofImportPart (v : Visit σ) (t : Tree) (c : NodeId) : List (Declaration σ) :=
  match t.kind c with
  | .importRequireClause =>
    ((t.namedChildren c).find? fun i => t.kind i = .identifier).toList.map
      (declares v.outer "import" .other t c)
  | .importClause => (t.namedChildren c).flatMap (v.ofClauseMember t)
  | _ => []

theorem ofImport_eq (v : Visit σ) (t : Tree) :
    v.ofImport t = (t.namedChildren v.node).flatMap (v.ofImportPart t) := rfl

theorem mem_ofImportPart (ht : t.Consistent) {c : NodeId} (h : d ∈ v.ofImportPart t c) :
    d.target = v.outer ∧ t.kind d.identifier = .identifier ∧
      ((t.kind c = .importRequireClause ∧ t.parent d.identifier = some c ∧ d.path = c ∧
          d.construct = .other) ∨
        t.kind c = .importClause ∧ ∃ m ∈ t.namedChildren c, d ∈ v.ofClauseMember t m) := by
  unfold ofImportPart at h
  split at h <;> rename_i hk
  · obtain ⟨i, hi, rfl⟩ := List.mem_map.mp h
    have hfind := Option.mem_toList.mp hi
    exact ⟨rfl, by simpa using List.find?_some hfind,
      .inl ⟨hk, parent_of_namedChild ht (List.mem_of_find?_eq_some hfind), rfl, rfl⟩⟩
  · obtain ⟨m, hm, hd⟩ := List.mem_flatMap.mp h
    obtain ⟨htarget, hki, _⟩ := mem_ofClauseMember ht hd
    exact ⟨htarget, hki, .inr ⟨hk, m, hm, hd⟩⟩
  · cases h

theorem carried_of_mem_ofImportPart (ht : t.Consistent) {c : NodeId} (h : d ∈ v.ofImportPart t c) :
    (t.kind c).carries = true ∧ t.Carried c d.identifier := by
  obtain ⟨_, _, ⟨hk, h, _⟩ | ⟨hk, m, hm, h⟩⟩ := mem_ofImportPart ht h
  · exact ⟨by rw [hk]; rfl, .child h⟩
  · refine ⟨by rw [hk]; rfl, ?_⟩
    have hp := parent_of_namedChild ht hm
    rcases below_of_mem_ofClauseMember ht h with he | ⟨hkm, hi⟩
    · exact he ▸ .child hp
    · exact (Carried.child hp).trans hkm hi

theorem ofImport_nodup (ht : t.Consistent) (hv : t.Below t.root v.node) :
    ((v.ofImport t).map Declaration.identifier).Nodup := by
  rw [ofImport_eq, List.map_flatMap]
  refine nodup_flatMap_children ht hv (namedChildren_nodup ht _) (fun c hc => parent_of_namedChild ht hc)
    (fun c hc => ?_) (fun c _ i hi => ?_)
  · have hb : t.Below t.root c := .step (parent_of_namedChild ht hc) hv
    unfold ofImportPart
    split
    · rw [map_identifier_declares]
      cases (t.namedChildren c).find? fun i => t.kind i = .identifier with
      | none => exact List.nodup_nil
      | some i => exact List.nodup_singleton i
    · rw [List.map_flatMap]
      refine nodup_flatMap_children ht hb (namedChildren_nodup ht _)
        (fun m hm => parent_of_namedChild ht hm)
        (fun m hm => ofClauseMember_nodup ht (.step (parent_of_namedChild ht hm) hb)) (fun m _ i hi => ?_)
      obtain ⟨d, hd, rfl⟩ := List.mem_map.mp hi
      rcases below_of_mem_ofClauseMember ht hd with he | ⟨_, hi⟩
      · exact he ▸ .refl
      · exact hi.to_below
    · exact List.nodup_nil
  · obtain ⟨d, hd, rfl⟩ := List.mem_map.mp hi
    exact (carried_of_mem_ofImportPart ht hd).2.to_below

/-! ### All declarers -/

theorem declares_of_mem (h : d ∈ v.declarationsAt hoist t) : (t.kind v.node).declares = true := by
  unfold declarationsAt at h
  split at h <;> rename_i hk <;> first | (rw [hk]; rfl) | cases h

/-- What a node can introduce by itself: its name and its parameters. -/
def signature (v : Visit σ) (t : Tree) : List NodeId :=
  (t.child? v.node .name).toList ++ (t.patternNames v.node .parameters ++ t.patternNames v.node .parameter)

theorem name_sublist_signature (v : Visit σ) (t : Tree) :
    (t.child? v.node .name).toList.Sublist (v.signature t) :=
  List.sublist_append_left ..

theorem parameters_sublist_signature (v : Visit σ) (t : Tree) :
    (t.patternNames v.node .parameters ++ t.patternNames v.node .parameter).Sublist (v.signature t) :=
  List.sublist_append_right ..

/-- The names that a node introduces are of its signature or of one pattern, unless it is an import. -/
theorem identifiers_declarationsAt (v : Visit σ) (hoist : σ) (t : Tree) :
    ((v.declarationsAt hoist t).map Declaration.identifier).Sublist (v.signature t) ∨
      (∃ f, ((v.declarationsAt hoist t).map Declaration.identifier).Sublist (t.patternNames v.node f)) ∨
      v.declarationsAt hoist t = v.ofImport t := by
  have named (s : σ) (w : String) (c : Construct) :
      ((v.ofName t s w c).map Declaration.identifier).Sublist (v.signature t) :=
    identifiers_ofName v t s w c ▸ name_sublist_signature v t
  have callable (s : σ) (w : String) (c : Construct) :
      ((v.ofName t s w c ++ v.parameters t).map Declaration.identifier).Sublist (v.signature t) := by
    rw [List.map_append, identifiers_ofName, identifiers_parameters]
    exact .refl _
  unfold declarationsAt
  split
  · exact .inr (.inl ⟨.name, identifiers_ofDeclarator v hoist t ▸ .refl _⟩)
  · exact .inl (callable ..)
  · exact .inl (callable ..)
  · exact .inl (callable ..)
  · exact .inl (callable ..)
  · exact .inl (callable ..)
  · exact .inl (callable ..)
  · exact .inl (identifiers_parameters v t ▸ parameters_sublist_signature v t)
  · exact .inl (named ..)
  · exact .inl (named ..)
  · split
    · exact .inl (named ..)
    · exact .inl (List.nil_sublist _)
  · exact .inr (.inl ⟨.parameter, map_identifier_declares .. ▸ .refl _⟩)
  · refine .inr (.inl ⟨.left, ?_⟩)
    rw [identifiers_ofLoop]
    split
    · exact .refl _
    · exact List.nil_sublist _
  · exact .inr (.inr rfl)
  · exact .inl (List.nil_sublist _)

theorem carried_of_mem_patternNames (ht : t.Consistent) {f : Field} {i : NodeId}
    (hi : i ∈ t.patternNames v.node f) : t.Carried v.node i := by
  obtain ⟨_, _, hc, _⟩ := mem_patternNames ht hi
  exact hc

theorem carried_of_mem_signature (ht : t.Consistent) {i : NodeId} (hi : i ∈ v.signature t) :
    t.Carried v.node i := by
  rcases List.mem_append.mp hi with hi | hi
  · exact .child (parent_of_child? ht (Option.mem_toList.mp hi))
  · rcases List.mem_append.mp hi with hi | hi
    · exact carried_of_mem_patternNames ht hi
    · exact carried_of_mem_patternNames ht hi

theorem carried_of_mem (ht : t.Consistent) (h : d ∈ v.declarationsAt hoist t) :
    t.Carried v.node d.identifier := by
  have hi : d.identifier ∈ (v.declarationsAt hoist t).map Declaration.identifier :=
    List.mem_map_of_mem h
  rcases v.identifiers_declarationsAt hoist t with hsub | ⟨f, hsub⟩ | himport
  · exact carried_of_mem_signature ht (hsub.subset hi)
  · exact carried_of_mem_patternNames ht (hsub.subset hi)
  · rw [himport, ofImport_eq] at h
    obtain ⟨c, hc, hd⟩ := List.mem_flatMap.mp h
    obtain ⟨hkc, hi⟩ := carried_of_mem_ofImportPart ht hd
    exact (Carried.child (parent_of_namedChild ht hc)).trans hkc hi

theorem signature_nodup (ht : t.Consistent) (hv : t.Below t.root v.node) : (v.signature t).Nodup := by
  have pattern := patternNames_nodup ht hv
  have named : (t.child? v.node .name).toList.Nodup := by
    cases t.child? v.node .name with
    | none => exact List.nodup_nil
    | some c => exact List.nodup_singleton c
  -- the name of a function is none of its parameters
  have apart : ∀ f, f ≠ .name → (t.child? v.node .name).toList.Disjoint (t.patternNames v.node f) := by
    intro f hf i hi hp
    obtain ⟨c, hc, _, hci⟩ := mem_patternNames ht hp
    have hname := Option.mem_toList.mp hi
    refine siblings_apart ht hv (parent_of_child? ht hname) (parent_of_child? ht hc) ?_ .refl hci
    rintro rfl
    exact hf (Option.some.inj ((field_of_child? hc).symm.trans (field_of_child? hname)))
  exact named.append ((pattern _).append (pattern _) (patternNames_disjoint ht hv (by decide)))
    (List.disjoint_append_right.mpr ⟨apart _ (by decide), apart _ (by decide)⟩)

theorem identifiers_nodup (ht : t.Consistent) (hv : t.Below t.root v.node) :
    ((v.declarationsAt hoist t).map Declaration.identifier).Nodup := by
  rcases v.identifiers_declarationsAt hoist t with hsub | ⟨f, hsub⟩ | himport
  · exact hsub.nodup (signature_nodup ht hv)
  · exact hsub.nodup (patternNames_nodup ht hv f)
  · exact himport ▸ ofImport_nodup ht hv

/-- A declaration goes to the scope around its declarer, the one inside it or the one that `var` sees. -/
theorem target_of_mem (ht : t.Consistent) (h : d ∈ v.declarationsAt hoist t) :
    d.target = v.outer ∨ d.target = v.inner ∨ d.target = hoist := by
  have named : ∀ {s w c}, d ∈ v.ofName t s w c → d.target = s := fun h => by
    obtain ⟨_, _, rfl⟩ := List.mem_map.mp h
    rfl
  have declared : ∀ {s : σ} {w c} {p : NodeId} {is : List NodeId},
      d ∈ is.map (declares s w c t p) → d.target = s := fun h => by
    obtain ⟨_, _, rfl⟩ := List.mem_map.mp h
    rfl
  unfold declarationsAt at h
  split at h
  · obtain ⟨_, _, rfl⟩ := List.mem_map.mp h
    change (if _ then hoist else v.inner) = _ ∨ (if _ then hoist else v.inner) = _ ∨ _
    split
    · exact .inr (.inr rfl)
    · exact .inr (.inl rfl)
  all_goals try
    rcases List.mem_append.mp h with h | h
    · first | exact .inl (named h) | exact .inr (.inl (named h))
    · exact .inr (.inl (declared h))
  · exact .inr (.inl (declared h))
  all_goals try exact .inl (named h)
  · split at h
    · exact .inr (.inl (named h))
    · cases h
  · exact .inr (.inl (declared h))
  · unfold ofLoop at h
    split at h
    · cases h
    · have := declared h
      split at this
      · exact .inr (.inr this)
      · exact .inr (.inl this)
  · rw [ofImport_eq] at h
    obtain ⟨c, _, hd⟩ := List.mem_flatMap.mp h
    exact .inl (mem_ofImportPart ht hd).1
  · cases h

theorem identifier_of_import (ht : t.Consistent) (hk : t.kind v.node = .importStatement)
    (h : d ∈ v.declarationsAt hoist t) : t.kind d.identifier = .identifier := by
  have h : d ∈ v.ofImport t := by
    unfold declarationsAt at h
    rwa [hk] at h
  rw [ofImport_eq] at h
  obtain ⟨c, _, hd⟩ := List.mem_flatMap.mp h
  exact (mem_ofImportPart ht hd).2.1

end Visit

namespace Tree

variable {t : Tree} {d : Declaration NodeId} {n i : NodeId}

theorem mem_declarations_iff : d ∈ t.declarations ↔ ∃ n ∈ t.walk, d ∈ t.declarationsOf n :=
  List.mem_flatMap

theorem declarationsOf_declarator (hk : t.kind n = .variableDeclarator) :
    t.declarationsOf n = (t.visitOf n).ofDeclarator (t.hoistNode n) t := by
  rw [declarationsOf, Visit.declarationsAt]
  simp only [visitOf, hk]

/-- The declarations of a declarator are the names of its pattern. -/
theorem mem_patternNames_iff (hk : t.kind n = .variableDeclarator) :
    i ∈ t.patternNames n .name ↔ ∃ d ∈ t.declarationsOf n, d.identifier = i := by
  rw [declarationsOf_declarator hk, ← List.mem_map, Visit.identifiers_ofDeclarator]
  rfl

theorem carried_of_mem_declarationsOf (ht : t.Consistent) (h : d ∈ t.declarationsOf n) :
    t.Carried n d.identifier :=
  Visit.carried_of_mem ht h

theorem not_carries_of_mem (h : d ∈ t.declarationsOf n) : (t.kind n).carries = false :=
  Kind.not_carries_of_declares (Visit.declares_of_mem h)

/-- A declared identifier knows its declarer. -/
theorem declarer_unique (ht : t.Consistent) {m n : NodeId} {d e : Declaration NodeId}
    (hd : d ∈ t.declarationsOf m) (he : e ∈ t.declarationsOf n) (hi : d.identifier = e.identifier) :
    m = n :=
  (carried_of_mem_declarationsOf ht hd).unique (not_carries_of_mem hd)
    (hi ▸ carried_of_mem_declarationsOf ht he) (not_carries_of_mem he)

/-- No identifier is declared twice. -/
theorem declaring_nodup (ht : t.Consistent) : t.declaring.Nodup := by
  rw [declaring, declarations, List.map_flatMap]
  refine List.nodup_flatMap.mpr ⟨fun n hn => ?_, (walk_nodup ht).imp ?_⟩
  · exact Visit.identifiers_nodup ht ((mem_walk_iff ht).mp hn)
  · intro m n hne i hm hn
    obtain ⟨d, hd, rfl⟩ := List.mem_map.mp hm
    obtain ⟨e, he, hi⟩ := List.mem_map.mp hn
    exact hne (declarer_unique ht hd he hi.symm)

theorem declaration_unique (ht : t.Consistent) {d e : Declaration NodeId} (hd : d ∈ t.declarations)
    (he : e ∈ t.declarations) (hi : d.identifier = e.identifier) : d = e :=
  List.inj_on_of_nodup_map (declaring_nodup ht) hd he hi

theorem declares_nothing (ht : t.Consistent) (hn : t.Below t.root n) (hnil : t.children n = []) :
    d ∉ t.declarationsOf n := fun h => by
  have hc := carried_of_mem_declarationsOf ht h
  exact hc.ne ht hn (hc.to_below.eq_of_leaf ht hnil).symm

/-- A declarer comes before the identifiers it declares. -/
theorem declarer_below (ht : t.Consistent) (h : d ∈ t.declarationsOf n) : t.Below n d.identifier :=
  (carried_of_mem_declarationsOf ht h).to_below

theorem declared_attached (ht : t.Consistent) (h : d ∈ t.declarations) :
    t.Below t.root d.identifier := by
  obtain ⟨n, hn, hd⟩ := mem_declarations_iff.mp h
  exact ((mem_walk_iff ht).mp hn).trans (declarer_below ht hd)

end Tree
end DeadCode
