import DeadCode.Proofs.Names.Declarers

/-!
How a node introduces a declaration, by the construct that the declaration names. Main statements:
`introduces_of_mem`, `constructed_of_mem`, and `path_of_mem`, which says where the declaring construct stands
between the node and the identifier.
-/

namespace DeadCode

open DeadCode.Tree

namespace Visit

variable {σ : Type} {v : Visit σ} {hoist : σ} {t : Tree} {d : Declaration σ} {m : NodeId}

/-- An import specifier or default import in its place. -/
inductive Imports (v : Visit σ) (t : Tree) (d : Declaration σ) : Prop
  | specifier {list clause : NodeId} : d.construct = .importSpecifier → t.kind d.path = .importSpecifier →
      v.ofSpecifier t d.path = [d] → d.path ∈ t.namedChildren list → t.kind list = .namedImports →
      list ∈ t.namedChildren clause → t.kind clause = .importClause → t.parent clause = some v.node →
      Imports v t d
  | default {clause : NodeId} : d.construct = .importDefault → d.path = d.identifier →
      d.identifier ∈ t.namedChildren clause → t.kind clause = .importClause →
      t.parent clause = some v.node → Imports v t d
  | namespace {clause : NodeId} : d.construct = .other → t.parent d.identifier = some d.path →
      t.kind d.path = .namespaceImport → d.path ∈ t.namedChildren clause → t.kind clause = .importClause →
      t.parent clause = some v.node → Imports v t d
  | require : d.construct = .other → t.parent d.identifier = some d.path →
      t.kind d.path = .importRequireClause → t.parent d.path = some v.node → Imports v t d

inductive Introduces (v : Visit σ) (hoist : σ) (t : Tree) (d : Declaration σ) : Prop
  | declarator : t.kind v.node = .variableDeclarator → d ∈ v.ofDeclarator hoist t → Introduces v hoist t d
  | function : t.kind v.node = .functionDeclaration ∨ t.kind v.node = .generatorFunctionDeclaration →
      d ∈ v.ofName t v.outer "function" .function → Introduces v hoist t d
  | imported : t.kind v.node = .importStatement → v.Imports t d → Introduces v hoist t d
  | other : t.kind v.node ≠ .importStatement → d.construct = .other → d.path = v.node → Introduces v hoist t d

theorem imports_of_mem (ht : t.Consistent) (h : d ∈ v.ofImport t) : v.Imports t d := by
  rw [ofImport_eq] at h
  obtain ⟨c, hc, h⟩ := List.mem_flatMap.mp h
  have hcv := parent_of_namedChild ht hc
  obtain ⟨_, _, ⟨hk, hp, hpath, hother⟩ | ⟨hk, m, hm, h⟩⟩ := mem_ofImportPart ht h
  · exact .require hother (hpath ▸ hp) (hpath ▸ hk) (hpath ▸ hcv)
  · unfold ofClauseMember at h
    split at h
    · rw [List.mem_singleton] at h
      subst h
      exact .default rfl rfl hm hk hcv
    · rename_i hkm
      obtain ⟨i, hi, rfl⟩ := List.mem_map.mp h
      exact .namespace rfl (parent_of_namedChild ht (List.mem_filter.mp hi).1) hkm hm hk hcv
    · rename_i hkm
      obtain ⟨s, hs, h⟩ := List.mem_flatMap.mp h
      rcases v.ofSpecifier_eq t s with he | ⟨hks, i, hi, _, he⟩
      · rw [he] at h
        cases h
      · rw [he, List.mem_singleton] at h
        subst h
        exact .specifier rfl hks he hs hkm hm hk hcv
    · cases h

/-- What stands between an import and an identifier that it declares. -/
theorem Imports.between (ht : t.Consistent) (h : v.Imports t d) {n : NodeId}
    (hb : t.Below n d.identifier) (hn : ¬ t.Below n v.node) : n = d.identifier ∨ n = d.path ∨
      t.kind n = .namedImports ∨ t.kind n = .importClause ∧ t.namedChildren n ≠ [] := by
  have up : ∀ {c p : NodeId}, t.parent c = some p → t.Below n c → n = c ∨ t.Below n p := by
    intro c p hp hb
    cases hb with
    | refl => exact .inl rfl
    | step hp' hb => exact .inr (Option.some.inj (hp'.symm.trans hp) ▸ hb)
  have clause : ∀ {c m : NodeId}, m ∈ t.namedChildren c → t.kind c = .importClause →
      t.parent c = some v.node → t.Below n c → t.kind n = .importClause ∧ t.namedChildren n ≠ [] := by
    intro c m hm hk hp hb
    rcases up hp hb with rfl | hb
    · exact ⟨hk, List.ne_nil_of_mem hm⟩
    · exact absurd hb hn
  rcases h with ⟨_, _, he, hlist, hkl, hclause, hkc, hp⟩ | ⟨_, _, hclause, hkc, hp⟩ |
    ⟨_, hpar, _, hclause, hkc, hp⟩ | ⟨_, hpar, _, hp⟩
  · have hpar := (mem_ofSpecifier ht (s := d.path) (by rw [he]; exact List.mem_singleton_self d)).2.1
    rcases up hpar hb with rfl | hb
    · exact .inl rfl
    rcases up (parent_of_namedChild ht hlist) hb with rfl | hb
    · exact .inr (.inl rfl)
    rcases up (parent_of_namedChild ht hclause) hb with rfl | hb
    · exact .inr (.inr (.inl hkl))
    · exact .inr (.inr (.inr (clause hclause hkc hp hb)))
  · rcases up (parent_of_namedChild ht hclause) hb with rfl | hb
    · exact .inl rfl
    · exact .inr (.inr (.inr (clause hclause hkc hp hb)))
  · rcases up hpar hb with rfl | hb
    · exact .inl rfl
    rcases up (parent_of_namedChild ht hclause) hb with rfl | hb
    · exact .inr (.inl rfl)
    · exact .inr (.inr (.inr (clause hclause hkc hp hb)))
  · rcases up hpar hb with rfl | hb
    · exact .inl rfl
    rcases up hp hb with rfl | hb
    · exact .inr (.inl rfl)
    · exact absurd hb hn

theorem imports_of_import (ht : t.Consistent) (hk : t.kind v.node = .importStatement)
    (h : d ∈ v.declarationsAt hoist t) : v.Imports t d := by
  refine imports_of_mem ht ?_
  unfold declarationsAt at h
  rwa [hk] at h

theorem introduces_of_mem (ht : t.Consistent) (h : d ∈ v.declarationsAt hoist t) :
    v.Introduces hoist t d := by
  have plain : ∀ {s : σ} {w : String} {is : List NodeId}, d ∈ is.map (declares s w .other t v.node) →
      d.construct = .other ∧ d.path = v.node := fun h => by
    obtain ⟨_, _, rfl⟩ := List.mem_map.mp h
    exact ⟨rfl, rfl⟩
  have other : t.kind v.node ≠ .importStatement → d.construct = .other ∧ d.path = v.node →
      v.Introduces hoist t d := fun hk h => .other hk h.1 h.2
  unfold declarationsAt at h
  split at h <;> rename_i hk
  · exact .declarator hk h
  · rcases List.mem_append.mp h with h | h
    · exact .function (.inl hk) h
    · exact other (by rw [hk]; decide) (plain h)
  · rcases List.mem_append.mp h with h | h
    · exact .function (.inr hk) h
    · exact other (by rw [hk]; decide) (plain h)
  all_goals try
    have hne : t.kind v.node ≠ .importStatement := by rw [hk]; decide
    first
      | exact other hne (plain h)
      | exact other hne ((List.mem_append.mp h).elim plain plain)
  · have hne : t.kind v.node ≠ .importStatement := by rw [hk]; decide
    split at h
    · exact other hne (plain h)
    · cases h
  · have hne : t.kind v.node ≠ .importStatement := by rw [hk]; decide
    unfold ofLoop at h
    split at h
    · cases h
    · exact other hne (plain h)
  · exact .imported hk (imports_of_mem ht h)
  · cases h

/-- The construct is the declaring node, or a part of an import, which holds the identifier itself. -/
theorem path_of_mem (ht : t.Consistent) (h : d ∈ v.declarationsAt hoist t) :
    (t.kind v.node ≠ .importStatement ∧ d.path = v.node) ∨
      (t.kind v.node = .importStatement ∧ (d.path = d.identifier ∨ t.parent d.identifier = some d.path)) := by
  rcases introduces_of_mem ht h with ⟨hk, h⟩ | ⟨hk, h⟩ | ⟨hk, h⟩ | ⟨hk, _, hp⟩
  · obtain ⟨_, _, rfl⟩ := List.mem_map.mp h
    exact .inl ⟨by rw [hk]; decide, rfl⟩
  · obtain ⟨_, _, rfl⟩ := List.mem_map.mp h
    exact .inl ⟨by rcases hk with hk | hk <;> rw [hk] <;> decide, rfl⟩
  · refine .inr ⟨hk, ?_⟩
    rcases h with ⟨_, hks, hs, _, _, _, _, _⟩ | ⟨_, hp, _, _, _⟩ | ⟨_, hp, _⟩ | ⟨_, hp, _⟩
    · exact .inr (mem_ofSpecifier ht (s := d.path) (by rw [hs]; exact List.mem_singleton_self d)).2.1
    · exact .inl hp
    · exact .inr hp
    · exact .inr hp
  · exact .inl ⟨hk, hp⟩

theorem path_of_import (ht : t.Consistent) (hk : t.kind v.node = .importStatement)
    (h : d ∈ v.declarationsAt hoist t) : t.kind d.path = .importSpecifier ∨ t.kind d.path = .identifier ∨
      t.kind d.path = .namespaceImport ∨ t.kind d.path = .importRequireClause := by
  have hki := identifier_of_import ht hk h
  rcases imports_of_import ht hk h with ⟨_, hkp, _⟩ | ⟨_, hp, _⟩ | ⟨_, _, hkp, _⟩ | ⟨_, _, hkp, _⟩
  · exact .inl hkp
  · exact .inr (.inl (hp ▸ hki))
  · exact .inr (.inr (.inl hkp))
  · exact .inr (.inr (.inr hkp))

/-- What the construct of a declaration tells of the node that makes it. -/
def Constructed (v : Visit σ) (t : Tree) (d : Declaration σ) : Prop :=
  match d.construct with
  | .declarator => t.kind v.node = .variableDeclarator ∧ d.path = v.node
  | .function => (t.kind v.node = .functionDeclaration ∨ t.kind v.node = .generatorFunctionDeclaration) ∧
      d.path = v.node ∧ t.child? v.node .name = some d.identifier
  | .importSpecifier => t.kind d.path = .importSpecifier ∧
      (t.child? d.path .alias).or (t.child? d.path .name) = some d.identifier ∧
      ∃ list, d.path ∈ t.namedChildren list ∧ t.kind list = .namedImports
  | .importDefault => d.path = d.identifier ∧ t.kind v.node = .importStatement ∧ ∃ clause,
      d.path ∈ t.namedChildren clause ∧ t.kind clause = .importClause ∧ t.parent clause = some v.node
  | .other => True

theorem constructed_of_mem (ht : t.Consistent) (h : d ∈ v.declarationsAt hoist t) : v.Constructed t d := by
  unfold Constructed
  rcases introduces_of_mem ht h with ⟨hk, h⟩ | ⟨hk, h⟩ | ⟨hk, himp⟩ | ⟨_, hc, _⟩
  · obtain ⟨_, _, rfl⟩ := List.mem_map.mp h
    exact ⟨hk, rfl⟩
  · obtain ⟨_, hi, rfl⟩ := List.mem_map.mp h
    exact ⟨hk, rfl, Option.mem_toList.mp hi⟩
  · rcases himp with ⟨hc, hks, hs, hlist, hkl, _⟩ | ⟨hc, hp, hclause, hkc, hpar⟩ | ⟨hc, _⟩ | ⟨hc, _⟩
    · rw [hc]
      exact ⟨hks, identifier_of_specifier (by rw [hs]; exact List.mem_singleton_self d), _, hlist, hkl⟩
    · rw [hc]
      exact ⟨hp, hk, _, hp ▸ hclause, hkc, hpar⟩
    · rw [hc]
      trivial
    · rw [hc]
      trivial
  · rw [hc]
    trivial

/-- A function declaration puts its own name outside and its parameters inside. -/
theorem function_of_mem
    (hk : t.kind v.node = .functionDeclaration ∨ t.kind v.node = .generatorFunctionDeclaration)
    (h : d ∈ v.declarationsAt hoist t) :
    t.child? v.node .name = some d.identifier ∨ d.target = v.inner := by
  have h : d ∈ v.ofName t v.outer "function" .function ++ v.parameters t := by
    unfold declarationsAt at h
    rcases hk with hk | hk
    · rw [hk] at h
      exact h
    · rw [hk] at h
      exact h
  rcases List.mem_append.mp h with h | h
  · obtain ⟨i, hi, rfl⟩ := List.mem_map.mp h
    exact .inl (Option.mem_toList.mp hi)
  · obtain ⟨i, _, rfl⟩ := List.mem_map.mp h
    exact .inr rfl

/-- The names of one declarator go to one scope, and each declaration lists them all. -/
theorem declarator_of_mem (hk : t.kind v.node = .variableDeclarator) {e : Declaration σ}
    (hd : d ∈ v.declarationsAt hoist t) (he : e ∈ v.declarationsAt hoist t) :
    e.target = d.target ∧ e.path = d.path ∧ t.text e.identifier ∈ d.coDeclared := by
  have hof : v.declarationsAt hoist t = v.ofDeclarator hoist t := by
    unfold declarationsAt
    rw [hk]
  rw [hof] at hd he
  obtain ⟨i, _, rfl⟩ := List.mem_map.mp hd
  obtain ⟨j, hj, rfl⟩ := List.mem_map.mp he
  exact ⟨rfl, rfl, List.mem_map_of_mem hj⟩

end Visit

namespace Tree

variable {t : Tree} {d : Declaration NodeId} {m : NodeId}

theorem below_path (ht : t.Consistent) (hm : t.Below t.root m) (h : d ∈ t.declarationsOf m) :
    t.Below m d.path := by
  rcases Visit.path_of_mem ht h with ⟨_, hp⟩ | ⟨_, hp | hp⟩
  · exact hp ▸ .refl
  · exact hp ▸ declarer_below ht h
  · have hc := carried_of_mem_declarationsOf ht h
    obtain ⟨p, hp', hb⟩ := hc.to_below.parent (hc.ne ht hm).symm
    rw [hp] at hp'
    exact Option.some.inj hp' ▸ hb

theorem path_attached (ht : t.Consistent) (h : d ∈ t.declarations) : t.Below t.root d.path := by
  obtain ⟨m, hm, hd⟩ := mem_declarations_iff.mp h
  have hroot := (mem_walk_iff ht).mp hm
  exact hroot.trans (below_path ht hroot hd)

/-! ## The construct of a declaration -/

theorem constructed (ht : t.Consistent) (h : d ∈ t.declarations) :
    ∃ m, d ∈ t.declarationsOf m ∧ (t.visitOf m).Constructed t d := by
  obtain ⟨m, _, hd⟩ := mem_declarations_iff.mp h
  exact ⟨m, hd, Visit.constructed_of_mem ht hd⟩

theorem declarator_of_construct (ht : t.Consistent) (h : d ∈ t.declarations)
    (hc : d.construct = .declarator) :
    t.kind d.path = .variableDeclarator ∧ d ∈ t.declarationsOf d.path := by
  obtain ⟨m, hd, h⟩ := constructed ht h
  rw [Visit.Constructed, hc] at h
  obtain ⟨hk, hp⟩ := h
  rw [hp]
  exact ⟨hk, hd⟩

/-- Whose path is a declarator, that is declared by the declarator. -/
theorem mem_declarationsOf_path (ht : t.Consistent) (hd : d ∈ t.declarations)
    (hk : t.kind d.path = .variableDeclarator) : d ∈ t.declarationsOf d.path := by
  obtain ⟨m, _, hm⟩ := mem_declarations_iff.mp hd
  rcases Visit.path_of_mem ht hm with ⟨_, hp⟩ | ⟨hkm, _⟩
  · rw [hp]
    exact hm
  · rcases Visit.path_of_import ht hkm hm with hkp | hkp | hkp | hkp <;> rw [hk] at hkp <;> cases hkp

theorem function_of_construct (ht : t.Consistent) (h : d ∈ t.declarations) (hc : d.construct = .function) :
    t.child? d.path .name = some d.identifier := by
  obtain ⟨m, _, h⟩ := constructed ht h
  rw [Visit.Constructed, hc] at h
  obtain ⟨_, hp, hname⟩ := h
  exact hp ▸ hname

theorem specifier_of_construct (ht : t.Consistent) (h : d ∈ t.declarations)
    (hc : d.construct = .importSpecifier) :
    (t.child? d.path .alias).or (t.child? d.path .name) = some d.identifier := by
  obtain ⟨m, _, h⟩ := constructed ht h
  rw [Visit.Constructed, hc] at h
  exact h.2.1

theorem default_of_construct (ht : t.Consistent) (h : d ∈ t.declarations)
    (hc : d.construct = .importDefault) : d.path = d.identifier := by
  obtain ⟨m, _, h⟩ := constructed ht h
  rw [Visit.Constructed, hc] at h
  exact h.1

/-- A default import is named in what holds it. -/
theorem default_named (ht : t.Consistent) (h : d ∈ t.declarations) (hc : d.construct = .importDefault)
    {c : NodeId} (hp : t.parent d.path = some c) : d.path ∈ t.namedChildren c := by
  obtain ⟨m, _, h⟩ := constructed ht h
  rw [Visit.Constructed, hc] at h
  obtain ⟨_, _, clause, hclause, _⟩ := h
  obtain rfl := Option.some.inj (hp.symm.trans (parent_of_namedChild ht hclause))
  exact hclause

end Tree
end DeadCode
