import DeadCode.Proofs.Names.Shape
import DeadCode.Proofs.Tree.Skeleton

/-!
Trees as the policies take them apart. A `ReapStep` is one whole removal: a statement, or a member of a list together
with the import clause that it leaves empty. Where declarators stand in the usual declarations each is one trimming step
or two, so that a reaped tree is a trimmed one (`Reaped.trimmed`). What single trimming steps do not keep, and removals
do, is that every import clause has a member (`Reaped.clausesFilled`).
-/

namespace DeadCode

/-- Which kind of member the policies take out of which kind of list. -/
def Kind.loses : Kind → Kind → Bool
  | k, .variableDeclarator => k.holdsDeclarators
  | .namedImports, .importSpecifier
  | .importClause, .identifier => true
  | _, _ => false

theorem Kind.sheds_of_loses {k m : Kind} (h : k.loses m = true) (hm : m ≠ .variableDeclarator) : k.sheds m = true := by
  unfold Kind.loses at h
  split at h
  · exact absurd rfl hm
  · rfl
  · rfl
  · cases h

theorem Kind.not_loses_import (m : Kind) : Kind.importStatement.loses m = false := by
  cases m <;> rfl

namespace Tree

/-- Declarators stand where declarators can stand. -/
def DeclaratorsHeld (t : Tree) : Prop :=
  ∀ n p, t.Below t.root n → t.parent n = some p → t.kind n = .variableDeclarator → (t.kind p).holdsDeclarators = true

/-- Declarators stand in declarations. -/
def Declared (t : Tree) : Prop :=
  ∀ n p, t.Below t.root n → t.parent n = some p → t.kind n = .variableDeclarator →
    t.kind p = .lexicalDeclaration ∨ t.kind p = .variableDeclaration

/-- The attached member `n` can leave the list `q`: it is not the only declarator of a declaration. -/
structure MayLeave (u : Tree) (q n : NodeId) : Prop where
  attached : u.Below u.root n
  parent : u.parent n = some q
  loses : (u.kind q).loses (u.kind n) = true
  other : u.kind n = .variableDeclarator → ∃ c ∈ u.children q, c ≠ n ∧ u.kind c = .variableDeclarator

/-- The import `s` loses its clause `c`, and with it the first word `from` if there is one. -/
inductive Collapse (u : Tree) (s c : NodeId) : Tree → Prop
  | clause {v : Tree} : u.detach c = .ok v → (∀ x ∈ v.children s, v.kind x ≠ .fromWord) → Collapse u s c v
  | clauseAndWord {v w : Tree} {word : NodeId} : u.detach c = .ok v →
      ((v.children s).find? fun x => v.kind x = .fromWord) = some word → v.detach word = .ok w → Collapse u s c w

/-- A statement is removed, or a member leaves a list. An import clause that is empty then goes as well. -/
inductive ReapStep (u : Tree) : Tree → Prop
  | statement {v : Tree} {n : NodeId} : u.removeStatement n = .ok (some v) → ReapStep u v
  | member {v : Tree} {q n : NodeId} : u.MayLeave q n → u.detach n = .ok v →
      ¬ (v.kind q = .importClause ∧ v.namedChildren q = []) → ReapStep u v
  | collapse {v w : Tree} {s q n : NodeId} : u.MayLeave q n → u.detach n = .ok v →
      v.kind q = .importClause ∧ v.namedChildren q = [] → v.parent q = some s → v.kind s = .importStatement →
      v.Collapse s q w → ReapStep u w

/-- Any number of removals. -/
def Reaped : Tree → Tree → Prop := Relation.ReflTransGen ReapStep

/-- Every import clause has a member. -/
def ClausesFilled (t : Tree) : Prop :=
  ∀ c, t.Below t.root c → t.kind c = .importClause → t.namedChildren c ≠ []

variable {t u v : Tree} {q n s c d : NodeId} {gone : List NodeId}

/-! ## Declarators -/

theorem Declared.held (h : t.Declared) : t.DeclaratorsHeld := by
  intro n p hroot hp hk
  rcases h n p hroot hp hk with hkp | hkp <;> rw [hkp] <;> rfl

/-- A declarator that is left stands where it stood. -/
theorem Remains.declarator (h : Remains t u) (ht : t.Consistent) (hroot : u.Below u.root n)
    (hp : u.parent n = some q) (hk : u.kind n = .variableDeclarator) :
    t.Below t.root n ∧ t.parent n = some q ∧ t.kind n = .variableDeclarator ∧ u.kind q = t.kind q := by
  obtain ⟨hlt, hroot', hk'⟩ := h.old hroot (by rw [hk]; decide)
  have hp' : t.parent n = some q := (h.parent_eq n hlt hroot).symm.trans hp
  exact ⟨hroot', hp', hk'.trans hk, h.kind_eq q (ht.parent_lt hp')⟩

theorem DeclaratorsHeld.remains (hd : t.DeclaratorsHeld) (ht : t.Consistent) (h : Remains t u) :
    u.DeclaratorsHeld := by
  intro n p hroot hp hk
  obtain ⟨hroot', hp', hk', hkp⟩ := h.declarator ht hroot hp hk
  rw [hkp]
  exact hd n p hroot' hp' hk'

theorem Declared.remains (hd : t.Declared) (ht : t.Consistent) (h : Remains t u) : u.Declared := by
  intro n p hroot hp hk
  obtain ⟨hroot', hp', hk', hkp⟩ := h.declarator ht hroot hp hk
  rw [hkp]
  exact hd n p hroot' hp' hk'

/-! ## What removals leave -/

theorem Edited.collapse (h : Edited t u) (hall : u.Collapse s c v) : Edited t v := by
  cases hall with
  | clause hok => exact .detach h hok
  | clauseAndWord hok _ hok' => exact .detach (.detach h hok) hok'

theorem ReapStep.edited (h : ReapStep t u) : Edited t u := by
  cases h with
  | statement hok => exact .removeStatement .refl hok
  | member _ hok => exact .detach .refl hok
  | collapse _ hok _ _ _ hall => exact .collapse (.detach .refl hok) hall

theorem Reaped.remains (h : Reaped t u) (ht : t.Consistent) : Remains t u := by
  induction h with
  | refl => exact .refl ht
  | tail _ hstep ih => exact ih.trans (hstep.edited.remains ih.consistent)

theorem Collapse.trimStep (h : t.Collapse s c u) (hp : t.parent c = some s) (hks : t.kind s = .importStatement)
    (hempty : t.kind c = .importClause ∧ t.namedChildren c = []) : TrimStep t u := by
  cases h with
  | clause hok hno => exact .clause hp hks hempty.1 hempty.2 hok hno
  | clauseAndWord hok hword hok' => exact .clauseAndWord hp hks hempty.1 hempty.2 hok hword hok'

theorem MayLeave.trimStep (h : t.MayLeave q n) (hd : t.Declared) (hok : t.detach n = .ok u) : TrimStep t u := by
  refine .member h.parent ?_ h.other hok
  by_cases hk : t.kind n = .variableDeclarator
  · rcases hd n q h.attached h.parent hk with hkq | hkq <;> rw [hkq, hk] <;> rfl
  · exact Kind.sheds_of_loses h.loses hk

theorem ReapStep.trimmed (h : ReapStep t u) (hd : t.Declared) : Trimmed t u := by
  cases h with
  | statement hok => exact .single (.statement hok)
  | member hm hok => exact .single (hm.trimStep hd hok)
  | collapse hm hok hempty hp hks hall => exact .tail (.single (hm.trimStep hd hok)) (hall.trimStep hp hks hempty)

theorem Reaped.trimmed (h : Reaped t u) (ht : t.Consistent) (hd : t.Declared) : Trimmed t u := by
  induction h with
  | refl => exact .refl
  | tail hpre hstep ih =>
    exact Relation.ReflTransGen.trans ih (hstep.trimmed (hd.remains ht (Reaped.remains hpre ht)))

/-! ## Import statements -/

/-- Of an import statement only the clause leaves, and the word `from` with it. -/
theorem ReapStep.keepsImport (h : ReapStep t u) (ht : t.Consistent) (hs : s < t.size)
    (hk : t.kind s = .importStatement) : t.KeepsChildren u s := by
  have hother : ∀ {q n}, t.MayLeave q n → s ≠ q := by
    rintro q n hm rfl
    have hloses := hm.loses
    rw [hk, Kind.not_loses_import] at hloses
    cases hloses
  cases h with
  | statement hok =>
    obtain ⟨_, hcut⟩ := statementCut_of_removeStatement ht hok
    exact hcut.keepsChildren s
  | member hm hok =>
    obtain ⟨_, hd⟩ := detached_of_parent ht hm.parent hok
    exact keepsChildren_of_eq (hd.children_other s (hother hm))
  | collapse hm hok hempty hp hks hall =>
    obtain ⟨_, hd⟩ := detached_of_parent ht hm.parent hok
    have hr := hd.toCut.remains ht
    have hstep := hall.trimStep hp hks hempty
    exact (keepsChildren_of_eq (hd.children_other s (hother hm))).trans ht hr (hstep.edited.remains hr.consistent) hs
      (hstep.keepsChildren hr.consistent s)

theorem Reaped.keepsImport (h : Reaped t u) (ht : t.Consistent) (hs : s < t.size)
    (hk : t.kind s = .importStatement) : t.KeepsChildren u s := by
  induction h with
  | refl => exact keepsChildren_of_eq rfl
  | tail hpre hstep ih =>
    have hr := Reaped.remains hpre ht
    have hkeeps := hstep.keepsImport hr.consistent (lt_of_lt_of_le hs hr.size_le) ((hr.kind_eq s hs).trans hk)
    exact ih.trans ht hr (hstep.edited.remains hr.consistent) hs hkeeps

/-! ## Import clauses -/

/-- An import clause that is attached after a cut elsewhere was attached before, with the same members. -/
theorem Cut.clause_before (h : Cut t u q n gone) (ht : t.Consistent) (hroot : u.Below u.root d)
    (hk : u.kind d = .importClause) (hd : d ≠ q) :
    t.Below t.root d ∧ t.kind d = .importClause ∧ u.namedChildren d = t.namedChildren d := by
  obtain ⟨_, hroot', hk'⟩ := (h.remains ht).old hroot (by rw [hk]; decide)
  have hnamed : u.namedChildren d = t.namedChildren d := by
    rw [namedChildren, h.children_other d hd, namedChildren]
    refine List.filter_congr fun x hx => ?_
    exact h.named_eq x (lt_size_of_parent ((ht.mem_children d x).mp hx))
  exact ⟨hroot', hk'.trans hk, hnamed⟩

theorem StatementCut.clausesFilled (h : StatementCut t u q n) (ht : t.Consistent) (hf : t.ClausesFilled) :
    u.ClausesFilled := by
  intro d hroot hk
  obtain ⟨gone, hcut⟩ := h.cut
  have hdq : d ≠ q := by
    rintro rfl
    rw [hcut.kind_eq d (ht.parent_lt hcut.parent_mem)] at hk
    rcases h with ⟨hlist, _⟩ | ⟨hslot, _⟩
    · rw [hk] at hlist
      cases hlist
    · rw [hk] at hslot
      cases hslot
  obtain ⟨hroot', hk', hnamed⟩ := hcut.clause_before ht hroot hk hdq
  exact hnamed ▸ hf d hroot' hk'

theorem Detached.clause_before (h : Detached t u s n gone) (ht : t.Consistent) (hks : t.kind s = .importStatement)
    (hroot : u.Below u.root d) (hk : u.kind d = .importClause) :
    d ≠ n ∧ t.Below t.root d ∧ t.kind d = .importClause ∧ u.namedChildren d = t.namedChildren d := by
  have hds : d ≠ s := by
    rintro rfl
    rw [h.kind_eq d (ht.parent_lt h.parent_mem), hks] at hk
    cases hk
  obtain ⟨hroot', hk', hnamed⟩ := h.toCut.clause_before ht hroot hk hds
  refine ⟨?_, hroot', hk', hnamed⟩
  rintro rfl
  exact h.not_below_gone ht (hroot'.lt_size ht) hroot h.node_mem .refl

/-- A clause that is still attached is another one. -/
theorem Collapse.clause_before (h : t.Collapse s c u) (ht : t.Consistent) (hp : t.parent c = some s)
    (hks : t.kind s = .importStatement) (hroot : u.Below u.root d) (hk : u.kind d = .importClause) :
    d ≠ c ∧ t.Below t.root d ∧ t.kind d = .importClause ∧ u.namedChildren d = t.namedChildren d := by
  cases h with
  | clause hok =>
    obtain ⟨_, hd⟩ := detached_of_parent ht hp hok
    exact hd.clause_before ht hks hroot hk
  | @clauseAndWord v _ word hok hword hok' =>
    obtain ⟨_, hd⟩ := detached_of_parent ht hp hok
    have hv := hd.toCut.consistent ht
    obtain ⟨_, hd'⟩ := detached_of_parent hv ((hv.mem_children s word).mp (List.mem_of_find?_eq_some hword)) hok'
    have hks' : v.kind s = .importStatement := (hd.kind_eq s (ht.parent_lt hp)).trans hks
    obtain ⟨_, hroot', hk', hnamed'⟩ := hd'.clause_before hv hks' hroot hk
    obtain ⟨hne, hroot', hk', hnamed⟩ := hd.clause_before ht hks hroot' hk'
    exact ⟨hne, hroot', hk', hnamed'.trans hnamed⟩

theorem ReapStep.clausesFilled (h : ReapStep t u) (ht : t.Consistent) (hf : t.ClausesFilled) : u.ClausesFilled := by
  cases h with
  | statement hok =>
    obtain ⟨_, hcut⟩ := statementCut_of_removeStatement ht hok
    exact hcut.clausesFilled ht hf
  | @member _ q _ hm hok hleft =>
    intro d hroot hk
    obtain ⟨_, hcut⟩ := detached_of_parent ht hm.parent hok
    by_cases hdq : d = q
    · subst hdq
      exact fun hnil => hleft ⟨hk, hnil⟩
    · obtain ⟨hroot', hk', hnamed⟩ := hcut.toCut.clause_before ht hroot hk hdq
      exact hnamed ▸ hf d hroot' hk'
  | collapse hm hok _ hp hks hall =>
    intro d hroot hk
    obtain ⟨_, hcut⟩ := detached_of_parent ht hm.parent hok
    obtain ⟨hdq, hroot', hk', hnamed'⟩ := hall.clause_before (hcut.toCut.consistent ht) hp hks hroot hk
    obtain ⟨hroot', hk', hnamed⟩ := hcut.toCut.clause_before ht hroot' hk' hdq
    exact hnamed' ▸ hnamed ▸ hf d hroot' hk'

theorem Reaped.clausesFilled (h : Reaped t u) (ht : t.Consistent) (hf : t.ClausesFilled) : u.ClausesFilled := by
  induction h with
  | refl => exact hf
  | tail hpre hstep ih => exact hstep.clausesFilled (Reaped.remains hpre ht).consistent ih

end Tree
end DeadCode
