import Mathlib.Tactic.MkIffOfInductiveProp
import DeadCode.Proofs.Names.Unreferenced

/-!
The assumptions on a tree can be checked. Consistency is a property of the nodes in the store; the
shape of a consistent tree is one of the nodes in its walk.
-/

namespace DeadCode.Tree

variable {t : Tree}

theorem consistent_iff : t.Consistent ↔
    (∀ p < t.size, (t.children p).Nodup ∧ ∀ c ∈ t.children p, t.parent c = some p) ∧
      (∀ c < t.size, (∀ p ∈ t.parent c, c ∈ t.children p) ∧
        ((t.node c).removed = true → t.parent c = none)) ∧
      t.parent t.root = none ∧ (t.node t.root).removed = false := by
  constructor
  · intro ht
    refine ⟨fun p _ => ⟨ht.nodup p, fun c hc => (ht.mem_children p c).mp hc⟩,
      fun c _ => ⟨fun p hp => (ht.mem_children p c).mpr hp, ht.removed_parent c⟩,
      ht.root_parent, ht.root_removed⟩
  · rintro ⟨hdown, hup, hroot, hremoved⟩
    refine ⟨fun p c => ⟨fun hc => ?_, fun hp => ?_⟩, fun p => ?_, hroot, hremoved, fun n hn => ?_⟩
    · exact (hdown p (lt_size_of_child hc)).2 c hc
    · exact (hup c (lt_size_of_parent hp)).1 p hp
    · rcases lt_or_ge p t.size with hp | hp
      · exact (hdown p hp).1
      · rw [children_eq_nil_of_size_le hp]
        exact List.nodup_nil
    · rcases lt_or_ge n t.size with hlt | hge
      · exact (hup n hlt).2 hn
      · exact parent_eq_none_of_size_le hge

instance : Decidable t.Consistent := decidable_of_iff _ consistent_iff.symm

/-- What `Shape` says of one node. -/
@[mk_iff]
structure ShapedAt (t : Tree) (n : NodeId) : Prop where
  leaf : (t.kind n).isLeaf = true ∨ (t.node n).named = false → t.children n = []
  declarator : t.kind n = .variableDeclarator → ∀ p ∈ t.parent n, (t.kind p).holdsDeclarators = true ∧
    (t.kind p = .variableDeclaration ∨
      ∃ k ∈ t.child? p .kind, t.kind k ≠ .variableDeclarator ∧ t.kind k ≠ .comma) ∧
    ∀ c ∈ t.children p, t.kind c = .variableDeclarator ∨ t.children c = []
  exportSpecifier : t.kind n = .exportSpecifier → ∀ p ∈ t.parent n, ∃ s ∈ t.parent p,
    t.kind s = .exportStatement
  expression : t.kind n = .expressionStatement →
    ∃ e ∈ n :: t.children n, ∀ c ∈ t.children n, c ≠ e → t.children c = []
  assignment : t.kind n = .assignmentExpression → ∀ c ∈ t.children n,
    t.child? n .left = some c ∨ t.child? n .right = some c ∨ t.children c = []
  specifier : t.kind n = .importSpecifier → ∀ m ∈ t.walkFrom n, (t.kind m).declares = false
  function_named : t.kind n = .functionDeclaration ∨ t.kind n = .generatorFunctionDeclaration →
    (t.node n).named = true

theorem shape_iff (ht : t.Consistent) :
    t.Shape ↔ t.kind t.root = .program ∧ ∀ n ∈ t.walk, t.ShapedAt n := by
  constructor
  · intro hs
    refine ⟨hs.root_program, fun n hn => ?_⟩
    have hroot := (mem_walk_iff ht).mp hn
    refine ⟨hs.leaf n hroot, fun hk p hp => ?_, fun hk p hp => ?_, fun hk => ?_,
      hs.assignment n hroot, fun hk m hm => ?_, hs.function_named n hroot⟩
    · obtain ⟨hholds, hkeyword⟩ := hs.keyword n p hroot hk hp
      exact ⟨hholds, hkeyword, hs.declaration n p hroot hk hp⟩
    · exact hs.exportSpecifier n p hroot hk hp
    · obtain ⟨e, he⟩ := hs.expression n hroot hk
      by_cases hmem : e ∈ t.children n
      · exact ⟨e, List.mem_cons_of_mem n hmem, he⟩
      · exact ⟨n, List.mem_cons_self, fun c hc _ => he c hc fun hce => hmem (hce ▸ hc)⟩
    · exact hs.specifier n m hroot hk ((mem_walkFrom_iff ht hroot).mp hm)
  · rintro ⟨hprogram, hall⟩
    have at' : ∀ n, t.Below t.root n → t.ShapedAt n := fun n hn => hall n ((mem_walk_iff ht).mpr hn)
    refine ⟨⟨hprogram, fun n hn => (at' n hn).leaf, fun n p hn hk hp => ?_,
      fun n p hn hk hp => (at' n hn).exportSpecifier hk p hp⟩, fun n p hn hk hp => ?_, fun n hn hk => ?_,
      fun n hn => (at' n hn).assignment, fun n m hn hk hm => ?_, fun n hn => (at' n hn).function_named⟩
    · obtain ⟨hholds, hkeyword, _⟩ := (at' n hn).declarator hk p hp
      exact ⟨hholds, hkeyword⟩
    · exact ((at' n hn).declarator hk p hp).2.2
    · obtain ⟨e, _, he⟩ := (at' n hn).expression hk
      exact ⟨e, he⟩
    · exact (at' n hn).specifier hk m ((mem_walkFrom_iff ht hn).mpr hm)

instance (n : NodeId) : Decidable (t.ShapedAt n) := decidable_of_iff _ (shapedAt_iff t n).symm

/-- What `Local` says of the nodes in one declarator. -/
def LocalAt (t : Tree) (p : NodeId) : Prop :=
  t.kind p = .variableDeclarator → ∀ m ∈ t.walkFrom p, m ≠ p → ∀ d ∈ t.declarationsOf m, d ∈ t.bindings →
    d.target ∈ t.walkFrom p

instance (p : NodeId) : Decidable (t.LocalAt p) :=
  if hk : t.kind p = .variableDeclarator then
    decidable_of_iff (∀ m ∈ t.walkFrom p, m ≠ p → ∀ d ∈ t.declarationsOf m, d ∈ t.bindings → d.target ∈ t.walkFrom p)
      ⟨fun h _ => h, fun h => h hk⟩
  else isTrue fun h => absurd h hk

theorem local_iff (ht : t.Consistent) : t.Local ↔ ∀ p ∈ t.walk, t.LocalAt p := by
  constructor
  · intro hl p hp hk m hm hne d hdm hd
    have hroot := (mem_walk_iff ht).mp hp
    exact (mem_walkFrom_iff ht hroot).mpr (hl d hd m hdm p hroot hk ((mem_walkFrom_iff ht hroot).mp hm) hne)
  · intro h d hd m hdm p hp hk hb hne
    have hw := h p ((mem_walk_iff ht).mpr hp) hk m ((mem_walkFrom_iff ht hp).mpr hb) hne d hdm hd
    exact (mem_walkFrom_iff ht hp).mp hw

/-- What `ExportsDeclarations` says of one statement. -/
def ExportsAt (t : Tree) (s : NodeId) : Prop :=
  t.kind s = .exportStatement → ∀ d ∈ t.child? s .declaration, (t.kind d).isSite = true →
    t.kind d = .lexicalDeclaration ∨ t.kind d = .variableDeclaration ∨
      (t.kind d).holdsDeclarators = true ∧ ∀ c ∈ t.children d, t.kind c ≠ .variableDeclarator

instance (s : NodeId) : Decidable (t.ExportsAt s) := by
  unfold ExportsAt
  infer_instance

theorem exportsDeclarations_iff (ht : t.Consistent) :
    t.ExportsDeclarations ↔ ∀ s ∈ t.walk, t.ExportsAt s :=
  ⟨fun h s hs hk d hd => h s d ((mem_walk_iff ht).mp hs) hk hd,
    fun h s d hs hk hd => h s ((mem_walk_iff ht).mpr hs) hk d hd⟩

/-- All that is assumed of a tree, in a form that can be decided. -/
def Admissible (t : Tree) : Prop :=
  t.Consistent ∧ t.kind t.root = .program ∧ ∀ n ∈ t.walk, t.ShapedAt n ∧ t.LocalAt n ∧ t.ExportsAt n

instance : Decidable t.Admissible := by
  unfold Admissible
  infer_instance

theorem admissible_iff : t.Admissible ↔ t.Consistent ∧ t.Shape ∧ t.Local ∧ t.ExportsDeclarations := by
  refine and_congr_right fun ht => ?_
  rw [shape_iff ht, local_iff ht, exportsDeclarations_iff ht]
  constructor
  · rintro ⟨hprogram, hall⟩
    exact ⟨⟨hprogram, fun n hn => (hall n hn).1⟩, fun n hn => (hall n hn).2.1, fun n hn => (hall n hn).2.2⟩
  · rintro ⟨⟨hprogram, hshaped⟩, hlocal, hexports⟩
    exact ⟨hprogram, fun n hn => ⟨hshaped n hn, hlocal n hn, hexports n hn⟩⟩

/-- The program `let a = 1; let b = 2; b; c = 3;`. -/
def smallProgram : Tree where
  nodes := #[
    { kind := .program, children := [1, 7, 13, 16] },
    { kind := .lexicalDeclaration, children := [2, 3, 6], parent := some 0 },
    { kind := .other "let", named := false, field := some .kind, text := "let", parent := some 1 },
    { kind := .variableDeclarator, children := [4, 5], parent := some 1 },
    { kind := .identifier, field := some .name, text := "a", parent := some 3 },
    { kind := .number, text := "1", parent := some 3 },
    { kind := .other ";", named := false, text := ";", parent := some 1 },
    { kind := .lexicalDeclaration, children := [8, 9, 12], parent := some 0 },
    { kind := .other "let", named := false, field := some .kind, text := "let", parent := some 7 },
    { kind := .variableDeclarator, children := [10, 11], parent := some 7 },
    { kind := .identifier, field := some .name, text := "b", parent := some 9 },
    { kind := .number, text := "2", parent := some 9 },
    { kind := .other ";", named := false, text := ";", parent := some 7 },
    { kind := .expressionStatement, children := [14, 15], parent := some 0 },
    { kind := .identifier, text := "b", parent := some 13 },
    { kind := .other ";", named := false, text := ";", parent := some 13 },
    { kind := .expressionStatement, children := [17, 21], parent := some 0 },
    { kind := .assignmentExpression, children := [18, 19, 20], parent := some 16 },
    { kind := .identifier, field := some .left, text := "c", parent := some 17 },
    { kind := .other "=", named := false, text := "=", parent := some 17 },
    { kind := .number, field := some .right, text := "3", parent := some 17 },
    { kind := .other ";", named := false, text := ";", parent := some 16 }]

theorem admissible_smallProgram : smallProgram.Admissible := by decide +kernel

end DeadCode.Tree
