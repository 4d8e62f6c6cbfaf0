import DeadCode.Proofs.Names.Revisions

/-!
The names of a declarator and its pattern. No removal takes a part out of a pattern (`Tree.Spares`), so a name
stands in the pattern of its declarator as long as that is attached (`Patterned.subtract`), and its entry stays in
the table of its scope (`own?_subtract`).
-/

namespace DeadCode

/-- Kinds of the parts of a pattern. -/
def Kind.inPattern : Kind → Bool
  | .objectPattern | .arrayPattern | .formalParameters | .restPattern | .pairPattern
  | .assignmentPattern | .objectAssignmentPattern | .requiredParameter | .optionalParameter
  | .identifier | .shorthandPropertyIdentifierPattern => true
  | _ => false

/-- Kinds of nodes that have parts of a pattern as children. -/
def Kind.holdsPattern (k : Kind) : Bool := k = .variableDeclarator || k.inPattern

theorem Kind.not_site_of_holdsPattern {k : Kind} (h : k.holdsPattern = true) : k.isSite = false := by
  cases k <;> first | rfl | exact absurd h Bool.false_ne_true

namespace Tree

/-- What the edits of the elimination do not tear apart: no assignment leaves its statement by itself, and no part of
a pattern the rest. -/
structure Spares (t : Tree) (q : NodeId) (gone : List NodeId) : Prop where
  assignment : t.kind q = .expressionStatement → ∀ g ∈ gone, t.kind g ≠ .assignmentExpression
  pattern : (t.kind q).holdsPattern = true → ∀ g ∈ gone, (t.kind g).inPattern = false

/-- `i` is part of a pattern of `m`. -/
inductive InPattern (t : Tree) (m : NodeId) : NodeId → Prop
  | child {i : NodeId} : t.parent i = some m → (t.kind i).inPattern = true → InPattern t m i
  | step {p i : NodeId} : t.parent i = some p → (t.kind i).inPattern = true → InPattern t m p → InPattern t m i

variable {t t' : Tree} {m i n q : NodeId} {gone : List NodeId}

/-- A comma leaves with a node without more ado. -/
theorem Spares.comma (h : t.Spares q [n]) (hgone : ∀ g ∈ gone, g = n ∨ t.kind g = .comma) : t.Spares q gone := by
  refine ⟨fun hq g hg => ?_, fun hq g hg => ?_⟩
  · rcases hgone g hg with rfl | hcomma
    · exact h.assignment hq g (List.mem_singleton_self g)
    · rw [hcomma]
      decide
  · rcases hgone g hg with rfl | hcomma
    · exact h.pattern hq g (List.mem_singleton_self g)
    · rw [hcomma]
      rfl

/-- Neither a statement of an assignment nor a pattern is cut into. -/
theorem Spares.of_site (hq : (t.kind q).isSite = true) : t.Spares q gone := by
  refine ⟨fun hk => ?_, fun hk => ?_⟩
  · rw [hk] at hq
    cases hq
  · rw [Kind.not_site_of_holdsPattern hk] at hq
    cases hq

theorem Spares.of_kind (hn : t.kind n ≠ .assignmentExpression) (hp : (t.kind n).inPattern = false) : t.Spares q [n] :=
  ⟨fun _ _ hg => List.mem_singleton.mp hg ▸ hn, fun _ _ hg => List.mem_singleton.mp hg ▸ hp⟩

namespace InPattern

theorem kind (h : t.InPattern m i) : (t.kind i).inPattern = true := by
  cases h with
  | child _ hk => exact hk
  | step _ hk _ => exact hk

theorem lt_size (h : t.InPattern m i) : i < t.size := by
  cases h with
  | child hp _ => exact lt_size_of_parent hp
  | step hp _ _ => exact lt_size_of_parent hp

theorem to_below (h : t.InPattern m i) : t.Below m i := by
  induction h with
  | child hp _ => exact .of_parent hp
  | step hp _ _ ih => exact .step hp ih

/-- A pattern stays whole. -/
theorem cut (hc : Cut t t' q n gone) (hs : t.Spares q gone) (hm : t.kind m = .variableDeclarator)
    (h : t.InPattern m i) : t'.InPattern m i := by
  have hkept : ∀ {p i : NodeId}, t.parent i = some p → (t.kind i).inPattern = true →
      (t.kind p).holdsPattern = true → t'.parent i = some p ∧ (t'.kind i).inPattern = true := fun hp hk hq => by
    have hlt := lt_size_of_parent hp
    refine ⟨(hc.parent_kept _ hlt fun hg => ?_).trans hp, (hc.kind_eq _ hlt).symm ▸ hk⟩
    obtain rfl := Option.some.inj (hp.symm.trans (hc.parent_of_gone _ hg))
    rw [hs.pattern hq _ hg] at hk
    cases hk
  induction h with
  | child hp hk =>
    obtain ⟨hp', hk'⟩ := hkept hp hk (by rw [Kind.holdsPattern, hm]; rfl)
    exact .child hp' hk'
  | step hp hk hpat ih =>
    obtain ⟨hp', hk'⟩ := hkept hp hk (by rw [Kind.holdsPattern, hpat.kind, Bool.or_true])
    exact .step hp' hk' ih

end InPattern

theorem inPattern_of_mem_from (ht : t.Consistent) {fuel : Nat} (h : i ∈ t.patternNamesFrom fuel n)
    (hn : (t.kind n).inPattern = true → t.InPattern m n) : t.InPattern m i := by
  induction fuel generalizing n with
  | zero => exact absurd h List.not_mem_nil
  | succ fuel ih =>
    have down : ∀ {c}, (t.kind n).inPattern = true → t.parent c = some n → i ∈ t.patternNamesFrom fuel c →
        t.InPattern m i := fun hk hp hi => ih hi fun hc => .step hp hc (hn hk)
    have through : ∀ {f}, (t.kind n).inPattern = true → i ∈ t.patternNamesIn fuel n f → t.InPattern m i :=
      fun hk hi => by
        obtain ⟨c, hc, hi⟩ := mem_patternNamesIn.mp hi
        exact down hk (parent_of_child? ht hc) hi
    have among : (t.kind n).inPattern = true → i ∈ (t.namedChildren n).flatMap (t.patternNamesFrom fuel) →
        t.InPattern m i := fun hk hi => by
      obtain ⟨c, hc, hi⟩ := List.mem_flatMap.mp hi
      exact down hk (parent_of_namedChild ht hc) hi
    rw [patternNamesFrom] at h
    split at h <;> rename_i hk
    · exact List.mem_singleton.mp h ▸ hn (by rw [hk]; rfl)
    · exact List.mem_singleton.mp h ▸ hn (by rw [hk]; rfl)
    · exact among (by rw [hk]; rfl) h
    · exact among (by rw [hk]; rfl) h
    · exact among (by rw [hk]; rfl) h
    · exact among (by rw [hk]; rfl) h
    · exact through (by rw [hk]; rfl) h
    · exact through (by rw [hk]; rfl) h
    · exact through (by rw [hk]; rfl) h
    · exact through (by rw [hk]; rfl) h
    · exact through (by rw [hk]; rfl) h
    · exact absurd h List.not_mem_nil

theorem inPattern_of_mem (ht : t.Consistent) {f : Field} (h : i ∈ t.patternNames m f) : t.InPattern m i := by
  unfold patternNames at h
  split at h
  · exact absurd h List.not_mem_nil
  · rename_i c hc
    exact inPattern_of_mem_from ht h fun hk => .child (parent_of_child? ht hc) hk

end Tree

open DeadCode.Tree

variable {a : Analysis} {t t' : Tree} {n q : NodeId} {gone : List NodeId}

/-! ## Names in their patterns -/

/-- A name introduced by an attached declarator stands in its pattern. -/
def Analysis.Patterned (a : Analysis) (t : Tree) : Prop :=
  ∀ b < a.bindings.size, t.kind (a.binding b).path = .variableDeclarator → t.Below t.root (a.binding b).path →
    t.InPattern (a.binding b).path (a.binding b).identifier

theorem patterned_crawl (ht : t.Consistent) (a : Analysis) : (a.crawl t).Patterned t := by
  have hr := reflects_crawl ht a
  intro b hb hk hroot
  obtain ⟨d, hd, hid⟩ := hr.live b hb hroot
  have hdesc := (hr.records.describes hd hb hid).1
  rw [hdesc.path] at hk ⊢
  rw [hdesc.identifier]
  have hmem := mem_declarationsOf_path ht (mem_declarations_of_binding hd) hk
  exact inPattern_of_mem ht ((mem_patternNames_iff hk).mpr ⟨d, hmem, rfl⟩)

theorem Analysis.Patterned.subtract (h : a.Patterned t) (ht : t.Consistent) (hc : Cut t t' q n gone)
    (hs : t.Spares q gone) (m : NodeId) : (a.subtract t' m).Patterned t' := by
  have hsame := sameBindings_subtract a t' m
  intro b hb hk hroot
  obtain ⟨_, he⟩ := hsame.binding b
  rw [he] at hk hroot ⊢
  rcases lt_or_ge (a.binding b).path t.size with hlt | hge
  · have hk := (hc.kind_eq _ hlt).symm.trans hk
    exact (h b (hsame.size ▸ hb) hk ((hc.below_root_iff ht hlt).mp hroot).1).cut hc hs hk
  · rw [hc.fresh_kind _ hge (hroot.lt_size (hc.consistent ht))] at hk
    cases hk

/-! ## Entries of the tables of names -/

/-- Every entry of the table of declarations stands for an identifier. -/
def Analysis.Labelled (a : Analysis) : Prop := ∀ i b, a.declared.get? i = some b → a.identifierOf b = i

theorem labelled_crawl (ht : t.Consistent) (a : Analysis) : (a.crawl t).Labelled := fun _ _ h =>
  ((reflects_crawl ht a).records.declared h).2

theorem Recounted.labelled {a' : Analysis} (h : Recounted a a') (hl : a.Labelled) : a'.Labelled := fun i b hb =>
  (h.identifierOf b).trans (hl i b (h.declared ▸ hb))

theorem Analysis.Labelled.dropNode (h : a.Labelled) (n : NodeId) : (a.dropNode n).Labelled := fun i b hb => by
  rw [get?_declared_dropNode] at hb
  split at hb
  · cases hb
  · exact ((sameBindings_dropNode a n).identifierOf b).trans (h i b hb)

/-- A name leaves the table of its scope with its identifier only. -/
theorem own?_dropNode (h : a.Labelled) {s : ScopeId} {x : String} {b : BindingId} (hb : a.own? s x = some b)
    (hn : a.identifierOf b ≠ n) : (a.dropNode n).own? s x = some b := by
  have hrec := recounted_dropReferences a n
  have hl := hrec.labelled h
  rw [← hrec.identifierOf] at hn
  have hb : (a.dropReferences n).own? s x = some b := by rw [Analysis.own?, hrec.names]; exact hb
  rw [Analysis.dropNode, Analysis.own?, (rescoped_dropScope _ n).names]
  generalize a.dropReferences n = a at hb hl hn
  cases hc : a.declared.get? n with
  | none =>
    rw [Analysis.dropDeclaration, hc]
    exact hb
  | some c =>
    have hu := unbinds_dropDeclaration hc (hl n c hc)
    rw [hu.scope]
    split
    · rename_i hown
      obtain ⟨rfl, hown⟩ := hown
      rw [Table.get?_erase, if_neg]
      · exact hb
      · rintro rfl
        obtain rfl := Option.some.inj (hown.symm.trans hb)
        exact hn (hl n c hc)
    · exact hb

theorem Analysis.Labelled.subtract (h : a.Labelled) (t : Tree) (n : NodeId) : (a.subtract t n).Labelled :=
  subtract_induction (fun m _ _ h => h.dropNode m) (fun _ h => h) h

theorem own?_subtract (h : a.Labelled) {s : ScopeId} {x : String} {b : BindingId} (hb : a.own? s x = some b)
    (hn : a.identifierOf b ∉ t.walkFrom n) : (a.subtract t n).own? s x = some b := by
  refine (subtract_induction (P := fun a => a.Labelled ∧ a.own? s x = some b ∧ a.identifierOf b ∉ t.walkFrom n)
    (fun m hm a ha => ?_) (fun _ h => h) ⟨h, hb, hn⟩).2.1
  obtain ⟨hl, hb, hn⟩ := ha
  refine ⟨hl.dropNode m, own?_dropNode hl hb fun he => hn (he ▸ hm), ?_⟩
  rwa [(sameBindings_dropNode a m).identifierOf]

/-! ## All of it -/

/-- How the tables of an analysis and the tree belong together. -/
structure Analysis.Arranged (a : Analysis) (t : Tree) : Prop where
  owned : a.Owned
  labelled : a.Labelled
  patterned : a.Patterned t

theorem arranged_crawl (ht : t.Consistent) (a : Analysis) : (a.crawl t).Arranged t :=
  ⟨owned_crawl ht a, labelled_crawl ht a, patterned_crawl ht a⟩

theorem Analysis.Arranged.subtract (h : a.Arranged t) (ht : t.Consistent) (hc : Cut t t' q n gone)
    (hs : t.Spares q gone) (m : NodeId) : (a.subtract t' m).Arranged t' :=
  ⟨h.owned.subtract t' m, h.labelled.subtract t' m, h.patterned.subtract ht hc hs m⟩

end DeadCode
