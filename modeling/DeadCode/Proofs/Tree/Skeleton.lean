import Mathlib.Logic.Relation
import DeadCode.Proofs.Tree.CommaList
import DeadCode.Proofs.Tree.Edited

/-!
The skeleton of a tree. A `TrimStep` removes a statement, or a member from a list that can do without it. Main
statement: `Trimmed.skeleton`, what any number of them leaves of the child list of each node. Lists of statements get
shorter, lists of members lose members and commas (`Sheds`), slots are filled by empty statements (`Fills`), and all
other child lists stay as they are.
-/

namespace DeadCode

/-- Which kind of member can leave which kind of list. -/
def Kind.sheds : Kind → Kind → Bool
  | .lexicalDeclaration, .variableDeclarator
  | .variableDeclaration, .variableDeclarator
  | .namedImports, .importSpecifier
  | .importClause, .identifier => true
  | _, _ => false

/-- Lists that members can leave. -/
def Kind.hasMembers : Kind → Bool
  | .lexicalDeclaration | .variableDeclaration | .namedImports | .importClause | .importStatement => true
  | _ => false

namespace Kind

variable {k m : Kind} {f : Option Field}

theorem hasMembers_of_sheds (h : k.sheds m = true) : k.hasMembers = true := by
  unfold sheds at h
  split at h
  all_goals first
    | rfl
    | cases h

theorem not_listed_of_hasMembers (h : k.hasMembers = true) : k.listsStatements = false := by
  unfold hasMembers at h
  split at h
  all_goals first
    | rfl
    | cases h

theorem plain_of_hasSlot (h : k.hasSlot f = true) : k.listsStatements = false ∧ k.hasMembers = false := by
  unfold hasSlot at h
  split at h
  all_goals first
    | exact ⟨rfl, rfl⟩
    | cases h

end Kind

namespace Tree

/-- The member `n` leaves a list, and with it a comma directly beside it if there is one. -/
inductive Leaves (t : Tree) (n : NodeId) : List NodeId → List NodeId → Prop
  | following {before after : List NodeId} {c : NodeId} : t.kind c = .comma →
      Leaves t n (before ++ n :: c :: after) (before ++ after)
  | preceding {before after : List NodeId} {c : NodeId} : t.kind c = .comma →
      Leaves t n (before ++ c :: n :: after) (before ++ after)
  | alone {before after : List NodeId} :
      (∀ c, after.head? = some c ∨ before.getLast? = some c → t.kind c ≠ .comma) →
      Leaves t n (before ++ n :: after) (before ++ after)

/-- A list of kind `k` gets shorter. An import statement loses a clause, and with it the first word `from` if there is
one. -/
inductive Sheds (t : Tree) (k : Kind) : List NodeId → List NodeId → Prop
  | member {l l' : List NodeId} {n : NodeId} : k.sheds (t.kind n) = true → t.Leaves n l l' → Sheds t k l l'
  | clause {l l' : List NodeId} {c : NodeId} : k = .importStatement → t.kind c = .importClause → t.Leaves c l l' →
      (∀ x ∈ l', t.kind x ≠ .fromWord) → Sheds t k l l'
  | clauseAndWord {l l' l'' : List NodeId} {c word : NodeId} : k = .importStatement → t.kind c = .importClause →
      t.Leaves c l l' → (l'.find? fun x => t.kind x = .fromWord) = some word → t.Leaves word l' l'' → Sheds t k l l''

/-- What stands in `t'` in the place of the child `c` of `p`: the child, or an empty statement in its slot. -/
inductive Fills (t t' : Tree) (p c : NodeId) : NodeId → Prop
  | same : Fills t t' p c c
  | empty {s : NodeId} : (t.kind p).hasSlot (t.node c).field = true → t.size ≤ s → s < t'.size →
      t'.kind s = .emptyStatement → (t'.node s).field = (t.node c).field → Fills t t' p c s

/-- The children of `p` are those it had, up to what its kind allows. -/
def KeepsChildren (t t' : Tree) (p : NodeId) : Prop :=
  if (t.kind p).listsStatements then (t'.children p).Sublist (t.children p)
  else if (t.kind p).hasMembers then
    Relation.ReflTransGen (t.Sheds (t.kind p)) (t.children p) (t'.children p)
  else List.Forall₂ (t.Fills t' p) (t.children p) (t'.children p)

/-- What is left of the tree has the structure it had. A declaration keeps a declarator, a slot keeps a statement, an
export keeps all that it has, and only an emptied clause leaves its import. -/
structure Skeleton (t t' : Tree) : Prop where
  remains : Remains t t'
  children : ∀ p < t.size, t.KeepsChildren t' p
  exactly : ∀ p < t.size, (t.kind p).listsStatements = false → (t.kind p).hasMembers = false →
    (∀ c ∈ t.children p, (t.kind p).hasSlot (t.node c).field = false) → t'.children p = t.children p
  slot : ∀ p < t.size, ∀ c ∈ t.children p, (t.kind p).hasSlot (t.node c).field = true →
    ∃ s ∈ t'.children p, (t'.node s).field = (t.node c).field
  declarator : ∀ p < t.size, t.kind p = .lexicalDeclaration ∨ t.kind p = .variableDeclaration →
    (∃ c ∈ t.children p, t.kind c = .variableDeclarator) → ∃ c ∈ t'.children p, t'.kind c = .variableDeclarator
  exported : ∀ p < t.size, t.kind p = .exportStatement → t'.children p = t.children p
  clause : ∀ p < t.size, t.kind p = .importStatement → ∀ c ∈ t.children p, t.kind c = .importClause →
    c ∉ t'.children p → t'.namedChildren c = []

variable {t t' u v : Tree} {p q n c : NodeId} {k : Kind} {l l' : List NodeId}

/-! ## Members that leave a list -/

theorem Leaves.subset (h : t.Leaves n l l') : l' ⊆ l := by
  cases h with
  | following | preceding | alone =>
    intro c hc
    simp only [List.mem_append, List.mem_cons] at hc ⊢
    tauto

theorem Leaves.congr (h : u.Leaves n l l') (hk : ∀ c ∈ l, u.kind c = t.kind c) : t.Leaves n l l' := by
  cases h with
  | following hc =>
    refine .following ?_
    rw [← hk _ (by simp)]
    exact hc
  | preceding hc =>
    refine .preceding ?_
    rw [← hk _ (by simp)]
    exact hc
  | @alone before after hno =>
    refine .alone fun c hc => ?_
    have hmem : c ∈ before ++ n :: after := by
      rcases hc with hc | hc
      · exact List.mem_append_right _ (List.mem_cons_of_mem n (List.mem_of_head? hc))
      · exact List.mem_append_left _ (List.mem_of_getLast? hc)
    rw [← hk c hmem]
    exact hno c hc

theorem Leaves.mem (h : t.Leaves n l l') : n ∈ l := by
  cases h <;> simp

theorem Sheds.subset (h : t.Sheds k l l') : l' ⊆ l := by
  cases h with
  | member _ h => exact h.subset
  | clause _ _ h => exact h.subset
  | clauseAndWord _ _ h _ h' => exact fun c hc => h.subset (h'.subset hc)

theorem Sheds.congr (h : u.Sheds k l l') (hk : ∀ c ∈ l, u.kind c = t.kind c) : t.Sheds k l l' := by
  cases h with
  | member hs h =>
    rw [hk _ h.mem] at hs
    exact .member hs (h.congr hk)
  | clause hk' hc h hno =>
    rw [hk _ h.mem] at hc
    refine .clause hk' hc (h.congr hk) fun x hx => ?_
    rw [← hk x (h.subset hx)]
    exact hno x hx
  | clauseAndWord hk' hc h hword h' =>
    rw [hk _ h.mem] at hc
    have hkept := fun x hx => hk x (h.subset hx)
    rw [Lists.find?_congr fun x hx => by rw [hkept x hx]] at hword
    exact .clauseAndWord hk' hc (h.congr hk) hword (h'.congr hkept)

/-- The kinds of the members that are in the list at the start decide. -/
theorem sheds_all_congr (h : Relation.ReflTransGen (u.Sheds k) l l') (hk : ∀ c ∈ l, u.kind c = t.kind c) :
    Relation.ReflTransGen (t.Sheds k) l l' := by
  induction h using Relation.ReflTransGen.head_induction_on with
  | refl => exact .refl
  | head hstep _ ih => exact .head (hstep.congr hk) (ih fun c hc => hk c (hstep.subset hc))

theorem subset_of_sheds_all (h : Relation.ReflTransGen (t.Sheds k) l l') : l' ⊆ l := by
  induction h with
  | refl => exact List.Subset.refl _
  | tail _ hstep ih => exact fun c hc => ih (hstep.subset hc)

/-! ## What a series of edits keeps -/

theorem Fills.trans (hr : Remains t u) (hr' : Remains u v) (hp : p < t.size) (hc : c < t.size) {d e : NodeId}
    (h : t.Fills u p c d) (h' : u.Fills v p d e) : t.Fills v p c e := by
  cases h with
  | same =>
    cases h' with
    | same => exact .same
    | empty hslot hge hlt hk hf =>
      rw [hr.kind_eq p hp, hr.field_eq c hc] at hslot
      exact .empty hslot (hr.size_le.trans hge) hlt hk (hf.trans (hr.field_eq c hc))
  | empty hslot hge hlt hk hf =>
    cases h' with
    | same =>
      exact .empty hslot hge (lt_of_lt_of_le hlt hr'.size_le) ((hr'.kind_eq d hlt).trans hk)
        ((hr'.field_eq d hlt).trans hf)
    | empty _ hge' hlt' hk' hf' => exact .empty hslot (hr.size_le.trans hge') hlt' hk' (hf'.trans hf)

theorem forall₂_fills_trans (hr : Remains t u) (hr' : Remains u v) (hp : p < t.size) {l₁ l₂ l₃ : List NodeId}
    (hl : ∀ c ∈ l₁, c < t.size) (h : List.Forall₂ (t.Fills u p) l₁ l₂) (h' : List.Forall₂ (u.Fills v p) l₂ l₃) :
    List.Forall₂ (t.Fills v p) l₁ l₃ := by
  induction h generalizing l₃ with
  | nil =>
    cases h'
    exact .nil
  | @cons c d l₁ l₂ hcd _ ih =>
    cases h' with
    | cons hde hrest =>
      exact .cons (hcd.trans hr hr' hp (hl c List.mem_cons_self) hde)
        (ih (fun x hx => hl x (List.mem_cons_of_mem c hx)) hrest)

/-- A place that is no slot holds the child it held. -/
theorem eq_of_forall₂_fills (hno : ∀ c ∈ l, (t.kind p).hasSlot (t.node c).field = false)
    (h : List.Forall₂ (t.Fills t' p) l l') : l' = l := by
  induction h with
  | nil => rfl
  | @cons c d l l' hcd _ ih =>
    rw [ih fun x hx => hno x (List.mem_cons_of_mem c hx)]
    cases hcd with
    | same => rfl
    | empty hslot =>
      rw [hno c List.mem_cons_self] at hslot
      cases hslot

theorem exists_fills (h : List.Forall₂ (t.Fills t' p) l l') (hc : c ∈ l) : ∃ s ∈ l', t.Fills t' p c s := by
  induction h with
  | nil => cases hc
  | @cons x y l l' hxy _ ih =>
    rcases List.mem_cons.mp hc with rfl | hc
    · exact ⟨y, List.mem_cons_self, hxy⟩
    · obtain ⟨s, hs, hf⟩ := ih hc
      exact ⟨s, List.mem_cons_of_mem y hs, hf⟩

theorem keepsChildren_of_eq (h : t'.children p = t.children p) : t.KeepsChildren t' p := by
  unfold KeepsChildren
  rw [h]
  split
  · exact List.Sublist.refl _
  · split
    · exact .refl
    · exact List.forall₂_same.mpr fun _ _ => .same

theorem KeepsChildren.trans (ht : t.Consistent) (hr : Remains t u) (hr' : Remains u v) (hp : p < t.size)
    (h : t.KeepsChildren u p) (h' : u.KeepsChildren v p) : t.KeepsChildren v p := by
  have hold : ∀ c ∈ t.children p, c < t.size := fun c hc => lt_size_of_parent ((ht.mem_children p c).mp hc)
  unfold KeepsChildren at h h' ⊢
  rw [hr.kind_eq p hp] at h'
  split
  · rename_i hlist
    rw [if_pos hlist] at h h'
    exact h'.trans h
  · rename_i hlist
    rw [if_neg hlist] at h h'
    split
    · rename_i hmembers
      rw [if_pos hmembers] at h h'
      exact h.trans (sheds_all_congr h' fun c hc => hr.kind_eq c (hold c (subset_of_sheds_all h hc)))
    · rename_i hmembers
      rw [if_neg hmembers] at h h'
      exact forall₂_fills_trans hr hr' hp hold h h'

/-! ## One step -/

/-- A statement is removed, or a member leaves a list. It is never the only declarator of a declaration, and a clause
leaves its import only when it is empty. -/
inductive TrimStep (u : Tree) : Tree → Prop
  | statement {v : Tree} {n : NodeId} : u.removeStatement n = .ok (some v) → TrimStep u v
  | member {v : Tree} {q n : NodeId} : u.parent n = some q → (u.kind q).sheds (u.kind n) = true →
      (u.kind n = .variableDeclarator → ∃ c ∈ u.children q, c ≠ n ∧ u.kind c = .variableDeclarator) →
      u.detach n = .ok v → TrimStep u v
  | clause {v : Tree} {s c : NodeId} : u.parent c = some s → u.kind s = .importStatement →
      u.kind c = .importClause → u.namedChildren c = [] → u.detach c = .ok v →
      (∀ x ∈ v.children s, v.kind x ≠ .fromWord) → TrimStep u v
  | clauseAndWord {v w : Tree} {s c word : NodeId} : u.parent c = some s → u.kind s = .importStatement →
      u.kind c = .importClause → u.namedChildren c = [] → u.detach c = .ok v →
      ((v.children s).find? fun x => v.kind x = .fromWord) = some word → v.detach word = .ok w → TrimStep u w

theorem statementCut_of_removeStatement (ht : t.Consistent) (h : t.removeStatement n = .ok (some u)) :
    ∃ q, StatementCut t u q n := by
  cases hp : t.parent n with
  | none =>
    rw [removeStatement, hp] at h
    cases h
  | some q =>
    rcases removeStatement_eq_ok ht hp with ⟨v, hok, hcut⟩ | ⟨hnone, _⟩
    · rw [h] at hok
      obtain rfl := Option.some.inj (Except.ok.inj hok)
      exact ⟨q, hcut⟩
    · rw [h] at hnone
      cases hnone

theorem leaves_detach (ht : t.Consistent) (hp : t.parent n = some q) (h : t.detach n = .ok u) :
    t.Leaves n (t.children q) (u.children q) := by
  obtain ⟨before, after, hc⟩ := List.append_of_mem ((ht.mem_children q n).mpr hp)
  rcases children_detach ht hc h with ⟨c, after', rfl, hk, hc'⟩ | ⟨c, before', rfl, hk, hc'⟩ | ⟨hno, hc'⟩
  · rw [hc, hc']
    exact .following hk
  · rw [hc, hc', List.append_assoc]
    exact .preceding hk
  · rw [hc, hc']
    refine .alone fun c hbeside hk => hno ?_
    exact (besideComma_iff ht hc).mpr ⟨c, hk, hbeside⟩

/-- Of all members but commas only the one that was to leave does so. -/
theorem Detached.eq_of_left {gone : List NodeId} (h : Detached t u q n gone) (ht : t.Consistent)
    (hc : c ∈ t.children p) (hk : t.kind c ≠ .comma) (hout : c ∉ u.children p) : c = n := by
  have hlt := lt_size_of_parent ((ht.mem_children p c).mp hc)
  have hg : c ∈ gone := by
    by_contra hg
    exact hout ((h.toCut.mem_children_iff ht hlt).mpr ⟨hc, hg⟩)
  exact (h.gone_comma c hg).resolve_right hk

/-- A declaration, a list of members or an import is no place for a statement. -/
theorem StatementCut.children_eq (h : StatementCut t u q n) (hp : (t.kind p).hasMembers = true) :
    u.children p = t.children p := by
  have hpq : p ≠ q := by
    rintro rfl
    rcases h with ⟨hlist, _⟩ | ⟨hslot, _⟩
    · rw [Kind.not_listed_of_hasMembers hp] at hlist
      cases hlist
    · rw [(Kind.plain_of_hasSlot hslot).2] at hp
      cases hp
  obtain ⟨gone, hcut⟩ := h.cut
  exact hcut.children_other p hpq

theorem StatementCut.keepsChildren (h : StatementCut t u q n) (p : NodeId) : t.KeepsChildren u p := by
  by_cases hpq : p = q
  · subst hpq
    unfold KeepsChildren
    rcases h with ⟨hlist, gone, hd⟩ | ⟨hslot, hr⟩
    · rw [if_pos hlist, hd.children_cut]
      exact List.filter_sublist
    · obtain ⟨hlist, hmembers⟩ := Kind.plain_of_hasSlot hslot
      rw [if_neg (by simp [hlist]), if_neg (by simp [hmembers]), hr.children_cut]
      refine List.forall₂_map_right_iff.mpr (List.forall₂_same.mpr fun c _ => ?_)
      have hlt : t.size < u.size := by rw [hr.size_eq]; exact Nat.lt_succ_self _
      split
      · rename_i hcn
        subst hcn
        exact .empty hslot le_rfl hlt (hr.fresh_kind _ le_rfl hlt) hr.fresh_field
      · exact .same
  · refine keepsChildren_of_eq ?_
    obtain ⟨gone, hcut⟩ := h.cut
    exact hcut.children_other p hpq

/-- A list of members that gets shorter, with all other child lists as they were. -/
theorem keepsChildren_of_sheds (hmembers : (t.kind q).hasMembers = true)
    (hstep : t.Sheds (t.kind q) (t.children q) (u.children q)) (hother : ∀ p, p ≠ q → u.children p = t.children p)
    (p : NodeId) : t.KeepsChildren u p := by
  by_cases hpq : p = q
  · subst hpq
    unfold KeepsChildren
    rw [if_neg (by simp [Kind.not_listed_of_hasMembers hmembers]), if_pos hmembers]
    exact .single hstep
  · exact keepsChildren_of_eq (hother p hpq)

namespace TrimStep

theorem edited (h : TrimStep t u) : Edited t u := by
  cases h with
  | statement h => exact .removeStatement .refl h
  | member _ _ _ h => exact .detach .refl h
  | clause _ _ _ _ h => exact .detach .refl h
  | clauseAndWord _ _ _ _ h _ h' => exact .detach (.detach .refl h) h'

theorem named_eq (h : TrimStep t u) (ht : t.Consistent) (hn : n < t.size) : (u.node n).named = (t.node n).named := by
  cases h with
  | statement h =>
    obtain ⟨_, hcut⟩ := statementCut_of_removeStatement ht h
    obtain ⟨_, hcut⟩ := hcut.cut
    exact hcut.named_eq n hn
  | member _ _ _ h =>
    obtain ⟨_, _, hd⟩ := detached_of_detach ht h
    exact hd.named_eq n hn
  | clause _ _ _ _ h =>
    obtain ⟨_, _, hd⟩ := detached_of_detach ht h
    exact hd.named_eq n hn
  | clauseAndWord _ _ _ _ h _ h' =>
    obtain ⟨_, _, hd⟩ := detached_of_detach ht h
    obtain ⟨_, _, hd'⟩ := detached_of_detach (hd.toCut.consistent ht) h'
    exact (hd'.named_eq n (lt_of_lt_of_le hn hd.size_le)).trans (hd.named_eq n hn)

theorem keepsChildren (h : TrimStep t u) (ht : t.Consistent) (p : NodeId) : t.KeepsChildren u p := by
  cases h with
  | statement h =>
    obtain ⟨_, hcut⟩ := statementCut_of_removeStatement ht h
    exact hcut.keepsChildren p
  | member hq hs _ h =>
    obtain ⟨_, hd⟩ := detached_of_parent ht hq h
    exact keepsChildren_of_sheds (Kind.hasMembers_of_sheds hs) (.member hs (leaves_detach ht hq h))
      hd.children_other p
  | clause hq hks hkc _ h hno =>
    obtain ⟨_, hd⟩ := detached_of_parent ht hq h
    have hleaves := leaves_detach ht hq h
    refine keepsChildren_of_sheds (by rw [hks]; rfl) (.clause hks hkc hleaves fun x hx => ?_) hd.children_other p
    rw [← hd.kind_eq x (lt_size_of_parent ((ht.mem_children _ x).mp (hleaves.subset hx)))]
    exact hno x hx
  | @clauseAndWord v w s c word hq hks hkc _ h hword h' =>
    obtain ⟨_, hd⟩ := detached_of_parent ht hq h
    have hv := hd.toCut.consistent ht
    have hw := (hv.mem_children s word).mp (List.mem_of_find?_eq_some hword)
    obtain ⟨_, hd'⟩ := detached_of_parent hv hw h'
    have hleaves := leaves_detach ht hq h
    have hk : ∀ x ∈ v.children s, v.kind x = t.kind x := fun x hx =>
      hd.kind_eq x (lt_size_of_parent ((ht.mem_children s x).mp (hleaves.subset hx)))
    rw [Lists.find?_congr fun x hx => by rw [hk x hx]] at hword
    exact keepsChildren_of_sheds (by rw [hks]; rfl)
      (.clauseAndWord hks hkc hleaves hword ((leaves_detach hv hw h').congr hk))
      (fun p hp => (hd'.children_other p hp).trans (hd.children_other p hp)) p

/-- A declaration that has a declarator keeps one. -/
theorem declarator (h : TrimStep t u) (ht : t.Consistent)
    (hk : t.kind p = .lexicalDeclaration ∨ t.kind p = .variableDeclaration)
    (hc : ∃ c ∈ t.children p, t.kind c = .variableDeclarator) :
    ∃ c ∈ u.children p, u.kind c = .variableDeclarator := by
  have hold : ∀ c ∈ t.children p, u.kind c = t.kind c := fun c hc =>
    (h.edited.remains ht).kind_eq c (lt_size_of_parent ((ht.mem_children p c).mp hc))
  have hsame : u.children p = t.children p → ∃ c ∈ u.children p, u.kind c = .variableDeclarator := fun heq => by
    obtain ⟨c, hc, hkc⟩ := hc
    exact ⟨c, heq ▸ hc, (hold c hc).trans hkc⟩
  have himport : ∀ {s}, t.kind s = .importStatement → p ≠ s := by
    rintro s hs rfl
    rcases hk with hk | hk <;> rw [hs] at hk <;> cases hk
  cases h with
  | statement h =>
    obtain ⟨_, hcut⟩ := statementCut_of_removeStatement ht h
    refine hsame (hcut.children_eq ?_)
    rcases hk with hk | hk <;> rw [hk] <;> rfl
  | @member _ q n hq _ hother h =>
    obtain ⟨_, hd⟩ := detached_of_parent ht hq h
    by_cases hpq : p = q
    · subst hpq
      obtain ⟨c, hc, hne, hkc⟩ : ∃ c ∈ t.children p, c ≠ n ∧ t.kind c = .variableDeclarator := by
        obtain ⟨c, hc, hkc⟩ := hc
        by_cases hcn : c = n
        · exact hother (hcn ▸ hkc)
        · exact ⟨c, hc, hcn, hkc⟩
      refine ⟨c, ?_, (hold c hc).trans hkc⟩
      by_contra hout
      exact hne (hd.eq_of_left ht hc (by rw [hkc]; decide) hout)
    · exact hsame (hd.children_other p hpq)
  | clause hq hks _ _ h =>
    obtain ⟨_, hd⟩ := detached_of_parent ht hq h
    exact hsame (hd.children_other p (himport hks))
  | @clauseAndWord v _ s _ word hq hks _ _ h hword h' =>
    obtain ⟨_, hd⟩ := detached_of_parent ht hq h
    have hv := hd.toCut.consistent ht
    obtain ⟨_, hd'⟩ := detached_of_parent hv ((hv.mem_children s word).mp (List.mem_of_find?_eq_some hword)) h'
    exact hsame ((hd'.children_other p (himport hks)).trans (hd.children_other p (himport hks)))

/-- A clause that is empty stays so. -/
theorem namedChildren_nil (h : TrimStep t u) (ht : t.Consistent) (hk : t.kind c = .importClause)
    (hnil : t.namedChildren c = []) : u.namedChildren c = [] := by
  have hkeeps := h.keepsChildren ht c
  unfold KeepsChildren at hkeeps
  rw [hk, if_neg (by decide), if_pos (by decide)] at hkeeps
  refine List.filter_eq_nil_iff.mpr fun x hx => ?_
  have hx := subset_of_sheds_all hkeeps hx
  rw [h.named_eq ht (lt_size_of_parent ((ht.mem_children c x).mp hx))]
  exact List.filter_eq_nil_iff.mp hnil x hx

/-- A clause that leaves its import is empty. -/
theorem clause_nil (h : TrimStep t u) (ht : t.Consistent) (hkp : t.kind p = .importStatement)
    (hc : c ∈ t.children p) (hk : t.kind c = .importClause) (hout : c ∉ u.children p) : u.namedChildren c = [] := by
  refine h.namedChildren_nil ht hk ?_
  have hcomma : t.kind c ≠ .comma := by rw [hk]; decide
  cases h with
  | statement h =>
    obtain ⟨_, hcut⟩ := statementCut_of_removeStatement ht h
    rw [hcut.children_eq (by rw [hkp]; rfl)] at hout
    exact absurd hc hout
  | @member _ q n hq hs _ h =>
    obtain ⟨_, hd⟩ := detached_of_parent ht hq h
    obtain rfl := hd.eq_of_left ht hc hcomma hout
    obtain rfl := Option.some.inj (hq.symm.trans ((ht.mem_children p c).mp hc))
    rw [hkp, hk] at hs
    cases hs
  | clause hq _ _ hnil h =>
    obtain ⟨_, hd⟩ := detached_of_parent ht hq h
    exact hd.eq_of_left ht hc hcomma hout ▸ hnil
  | @clauseAndWord v _ s _ word hq _ _ hnil h hword h' =>
    obtain ⟨_, hd⟩ := detached_of_parent ht hq h
    have hv := hd.toCut.consistent ht
    obtain ⟨_, hd'⟩ := detached_of_parent hv ((hv.mem_children s word).mp (List.mem_of_find?_eq_some hword)) h'
    by_cases hcv : c ∈ v.children p
    · have hkv := hd.kind_eq c (lt_size_of_parent ((ht.mem_children p c).mp hc))
      have hkw : v.kind word = .fromWord := by simpa using List.find?_some hword
      obtain rfl := hd'.eq_of_left hv hcv (hkv ▸ hcomma) hout
      rw [hkw, hk] at hkv
      cases hkv
    · exact hd.eq_of_left ht hc hcomma hcv ▸ hnil

end TrimStep

/-! ## Trimmed trees -/

/-- Any number of steps. -/
def Trimmed : Tree → Tree → Prop := Relation.ReflTransGen TrimStep

namespace Trimmed

theorem remains (h : Trimmed t u) (ht : t.Consistent) : Remains t u := by
  induction h with
  | refl => exact .refl ht
  | tail _ hstep ih => exact ih.trans (hstep.edited.remains ih.consistent)

theorem keepsChildren (h : Trimmed t u) (ht : t.Consistent) (hp : p < t.size) : t.KeepsChildren u p := by
  induction h with
  | refl => exact keepsChildren_of_eq rfl
  | @tail u v hpre hstep ih =>
    have hr := remains hpre ht
    exact ih.trans ht hr (hstep.edited.remains hr.consistent) hp (hstep.keepsChildren hr.consistent p)

theorem declarator (h : Trimmed t u) (ht : t.Consistent) (hp : p < t.size)
    (hk : t.kind p = .lexicalDeclaration ∨ t.kind p = .variableDeclaration)
    (hc : ∃ c ∈ t.children p, t.kind c = .variableDeclarator) :
    ∃ c ∈ u.children p, u.kind c = .variableDeclarator := by
  induction h with
  | refl => exact hc
  | @tail u v hpre hstep ih =>
    have hr := remains hpre ht
    exact hstep.declarator hr.consistent (by rwa [hr.kind_eq p hp]) ih

theorem clause_nil (h : Trimmed t u) (ht : t.Consistent) (hkp : t.kind p = .importStatement)
    (hc : c ∈ t.children p) (hk : t.kind c = .importClause) (hout : c ∉ u.children p) : u.namedChildren c = [] := by
  have hpc := (ht.mem_children p c).mp hc
  induction h with
  | refl => exact absurd hc hout
  | @tail u v hpre hstep ih =>
    have hr := remains hpre ht
    have hkc := (hr.kind_eq c (lt_size_of_parent hpc)).trans hk
    by_cases hcu : c ∈ u.children p
    · exact hstep.clause_nil hr.consistent ((hr.kind_eq p (ht.parent_lt hpc)).trans hkp) hcu hkc hout
    · exact hstep.namedChildren_nil hr.consistent hkc (ih hcu)

/-- What is left of a trimmed tree. -/
theorem skeleton (h : Trimmed t u) (ht : t.Consistent) : Skeleton t u := by
  have hr := h.remains ht
  have hplaces : ∀ p < t.size, (t.kind p).listsStatements = false → (t.kind p).hasMembers = false →
      List.Forall₂ (t.Fills u p) (t.children p) (u.children p) := fun p hp hlist hmembers => by
    have hall := h.keepsChildren ht hp
    unfold KeepsChildren at hall
    rwa [if_neg (by simp [hlist]), if_neg (by simp [hmembers])] at hall
  have hexactly : ∀ p < t.size, (t.kind p).listsStatements = false → (t.kind p).hasMembers = false →
      (∀ c ∈ t.children p, (t.kind p).hasSlot (t.node c).field = false) → u.children p = t.children p :=
    fun p hp hlist hmembers hno => eq_of_forall₂_fills hno (hplaces p hp hlist hmembers)
  refine ⟨hr, fun p hp => h.keepsChildren ht hp, hexactly, fun p hp c hc hslot => ?_,
    fun p hp hk hc => h.declarator ht hp hk hc, fun p hp hk => ?_,
    fun p _ hkp c hc hk hout => h.clause_nil ht hkp hc hk hout⟩
  · obtain ⟨hlist, hmembers⟩ := Kind.plain_of_hasSlot hslot
    obtain ⟨s, hs, hfills⟩ := exists_fills (hplaces p hp hlist hmembers) hc
    refine ⟨s, hs, ?_⟩
    cases hfills with
    | same => exact hr.field_eq c (lt_size_of_parent ((ht.mem_children p c).mp hc))
    | empty _ _ _ _ hf => exact hf
  · refine hexactly p hp (by rw [hk]; rfl) (by rw [hk]; rfl) fun c _ => ?_
    rw [hk]
    rfl

end Trimmed
end Tree
end DeadCode
