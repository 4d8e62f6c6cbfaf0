import DeadCode.Proofs.Names.Lineage
import DeadCode.Proofs.Names.Shape
import DeadCode.Proofs.Tree.Edits

/-!
What an edit leaves alone. `Pruning` lists the edits that the elimination makes. A node that stays keeps
its children, its scopes and the patterns below it, up to what was cut at one place; so what it declares is
what it declared before, less the identifiers that left (`declarationsOf_stays`).
-/

namespace DeadCode

namespace Tree

/-- The edits of the elimination: a statement leaves its list or its slot, a declarator its declaration,
a part of an import what lists it. -/
inductive Pruning (t t' : Tree) (q n : NodeId) (gone : List NodeId) : Prop
  | statement : (t.kind q).listsStatements = true → Detached t t' q n gone → Pruning t t' q n gone
  | slot : (t.kind q).hasSlot (t.node n).field = true → Replaced t t' q n → gone = [n] →
      Pruning t t' q n gone
  | declarator : (t.kind q).holdsDeclarators = true → t.kind n = .variableDeclarator →
      Detached t t' q n gone → Pruning t t' q n gone
  | importPart : (t.kind q).listsImports = true → Detached t t' q n gone → Pruning t t' q n gone

/-- `m` is attached and does not leave with `gone`. -/
def Stays (t : Tree) (gone : List NodeId) (m : NodeId) : Prop :=
  t.Below t.root m ∧ ∀ g ∈ gone, ¬ t.Below g m

variable {t t' : Tree} {q n m c p : NodeId} {gone : List NodeId}

theorem Kind.isSite_of_hasSlot {k : Kind} {f : Option Field} (h : k.hasSlot f = true) :
    k.isSite = true := by
  unfold Kind.hasSlot at h
  split at h <;> first | rfl | cases h

theorem Kind.isSite_of_listsStatements {k : Kind} (h : k.listsStatements = true) : k.isSite = true := by
  cases k <;> first | rfl | cases h

theorem Kind.isSite_of_holdsDeclarators {k : Kind} (h : k.holdsDeclarators = true) : k.isSite = true := by
  cases k <;> first | rfl | cases h

theorem Kind.isSite_of_listsImports {k : Kind} (h : k.listsImports = true) : k.isSite = true := by
  cases k <;> first | rfl | cases h

theorem Kind.not_listed_of_holdsDeclarators {k : Kind} (h : k.holdsDeclarators = true) :
    k.listsStatements = false ∧ (∀ f, k.hasSlot f = false) ∧ k.listsImports = false := by
  cases k <;> first | exact ⟨rfl, fun _ => rfl, rfl⟩ | cases h

theorem Kind.not_listed_of_listsImports {k : Kind} (h : k.listsImports = true) :
    k.listsStatements = false ∧ (∀ f, k.hasSlot f = false) ∧ k.holdsDeclarators = false := by
  cases k <;> first | exact ⟨rfl, fun _ => rfl, rfl⟩ | cases h

theorem Kind.not_declares_of_holdsDeclarators {k : Kind} (h : k.holdsDeclarators = true) :
    k.declares = false := by
  cases k <;> first | rfl | exact absurd h Bool.false_ne_true

/-- Of the nodes that carry names only parts of imports are cut into. -/
theorem Kind.listsImports_of_carries {k : Kind} (h : k.carries = true) (hs : k.isSite = true) :
    k.listsImports = true := by
  cases k <;> first | rfl | exact absurd h Bool.false_ne_true | exact absurd hs Bool.false_ne_true

namespace Pruning

theorem cut (h : Pruning t t' q n gone) : Cut t t' q n gone := by
  rcases h with ⟨_, h⟩ | ⟨_, h, rfl⟩ | ⟨_, _, h⟩ | ⟨_, h⟩
  · exact h.toCut
  · exact h.toCut
  · exact h.toCut
  · exact h.toCut

theorem site (h : Pruning t t' q n gone) : (t.kind q).isSite = true := by
  rcases h with ⟨h, _⟩ | ⟨h, _, _⟩ | ⟨h, _, _⟩ | ⟨h, _⟩
  · exact Kind.isSite_of_listsStatements h
  · exact Kind.isSite_of_hasSlot h
  · exact Kind.isSite_of_holdsDeclarators h
  · exact Kind.isSite_of_listsImports h

theorem gone_comma (h : Pruning t t' q n gone) : ∀ g ∈ gone, g = n ∨ t.kind g = .comma := by
  rcases h with ⟨_, h⟩ | ⟨_, _, rfl⟩ | ⟨_, _, h⟩ | ⟨_, h⟩
  · exact h.gone_comma
  · exact fun g hg => .inl (List.mem_singleton.mp hg)
  · exact h.gone_comma
  · exact h.gone_comma

/-- Of what holds declarators only declarators are cut off. -/
theorem declarator_of_holds (h : Pruning t t' q n gone) (hk : (t.kind q).holdsDeclarators = true) :
    t.kind n = .variableDeclarator ∧ Detached t t' q n gone := by
  obtain ⟨hstatement, hslot, himport⟩ := Kind.not_listed_of_holdsDeclarators hk
  cases h with
  | statement hl _ => exact absurd (hstatement.symm.trans hl) Bool.false_ne_true
  | slot hl _ _ => exact absurd ((hslot _).symm.trans hl) Bool.false_ne_true
  | declarator _ hn hcut => exact ⟨hn, hcut⟩
  | importPart hl _ => exact absurd (himport.symm.trans hl) Bool.false_ne_true

/-- What lists imports is cut into as a list. -/
theorem detached_of_listsImports (h : Pruning t t' q n gone) (hk : (t.kind q).listsImports = true) :
    Detached t t' q n gone := by
  obtain ⟨hstatement, hslot, hdeclarator⟩ := Kind.not_listed_of_listsImports hk
  cases h with
  | statement hl _ => exact absurd (hstatement.symm.trans hl) Bool.false_ne_true
  | slot hl _ _ => exact absurd ((hslot _).symm.trans hl) Bool.false_ne_true
  | declarator hl _ _ => exact absurd (hdeclarator.symm.trans hl) Bool.false_ne_true
  | importPart _ hcut => exact hcut

/-- A node of a kind that is no site is not where the cut was made. -/
theorem ne_of_not_site (h : Pruning t t' q n gone) (hm : (t.kind m).isSite = false) : m ≠ q := by
  rintro rfl
  rw [h.site] at hm
  cases hm

end Pruning

/-! ## Nodes that stay -/

namespace Stays

theorem lt_size (ht : t.Consistent) (hm : Stays t gone m) : m < t.size := hm.1.lt_size ht

theorem not_gone (hm : Stays t gone m) : m ∉ gone := fun hg => hm.2 m hg .refl

theorem parent (ht : t.Consistent) (hm : Stays t gone m) (hp : t.parent m = some p) :
    Stays t gone p := by
  refine ⟨hm.1.root_of_below ht (.of_parent hp), fun g hg hb => hm.2 g hg (.step hp hb)⟩

theorem child (hm : Stays t gone m) (hp : t.parent c = some m) (hc : c ∉ gone) : Stays t gone c := by
  refine ⟨.step hp hm.1, fun g hg hb => ?_⟩
  obtain ⟨p, hp', hgp⟩ := hb.parent fun he => hc (he ▸ hg)
  rw [hp] at hp'
  obtain rfl := Option.some.inj hp'
  exact hm.2 g hg hgp

theorem child_of_ne (h : Cut t t' q n gone) (hm : Stays t gone m) (hp : t.parent c = some m)
    (hne : m ≠ q) : Stays t gone c := by
  refine hm.child hp fun hc => hne ?_
  exact Option.some.inj (hp.symm.trans (h.parent_of_gone c hc))

theorem of_below (ht : t.Consistent) (hm : Stays t gone m) {a : NodeId} (h : t.Below a m) : Stays t gone a :=
  ⟨hm.1.root_of_below ht h, fun g hg hb => hm.2 g hg (hb.trans h)⟩

end Stays

theorem stays_root (ht : t.Consistent) (h : Cut t t' q n gone) : Stays t gone t.root := by
  refine ⟨.refl, fun g hg hb => ?_⟩
  cases hb with
  | refl => exact h.root_not_gone ht hg
  | step hp _ => rw [ht.root_parent] at hp; cases hp

theorem stays_iff (ht : t.Consistent) (h : Cut t t' q n gone) (hm : m < t.size) :
    Stays t gone m ↔ t'.Below t'.root m :=
  (h.below_root_iff ht hm).symm

theorem stays_iff_mem (ht : t.Consistent) (h : Cut t t' q n gone) (hq : t.Below t.root q) :
    Stays t gone m ↔ m ∈ t.walk ∧ m ∉ t.offcut gone := by
  rw [mem_walk_iff ht, h.mem_offcut_iff ht hq, Stays]
  simp

/-! ## Lineage and scopes -/

namespace Cut

theorem parent_stays (ht : t.Consistent) (h : Cut t t' q n gone) (hm : Stays t gone m) :
    t'.parent m = t.parent m :=
  h.parent_kept m (hm.lt_size ht) hm.not_gone

theorem lineage_stays (ht : t.Consistent) (h : Cut t t' q n gone) (hm : Stays t gone m) :
    t'.lineage m = t.lineage m := by
  obtain ⟨hb, hg⟩ := hm
  induction hb with
  | refl => rw [lineage_root ht, ← h.root, lineage_root (h.consistent ht)]
  | @step p c hp hb ih =>
    have hc : Stays t gone c := ⟨.step hp hb, hg⟩
    have hps := hc.parent ht hp
    have hp' : t'.parent c = some p := (h.parent_stays ht hc).trans hp
    have hb' := (stays_iff ht h (hps.lt_size ht)).mp hps
    rw [lineage_child ht hp hb, lineage_child (h.consistent ht) hp' hb', ih hps.2]

theorem opens?_stays (ht : t.Consistent) (h : Cut t t' q n gone) (hm : Stays t gone m) :
    t'.opens? m = t.opens? m := by
  have hkind : t'.kind m = t.kind m := h.kind_eq m (hm.lt_size ht)
  unfold opens?
  rw [hkind, h.parent_stays ht hm, h.field_eq m (hm.lt_size ht)]
  cases hp : t.parent m with
  | none => rfl
  | some p => simp only [h.kind_eq p (ht.parent_lt hp)]

theorem scopeOpened?_stays (ht : t.Consistent) (h : Cut t t' q n gone) (hm : Stays t gone m) :
    t'.scopeOpened? m = t.scopeOpened? m := by
  simp only [scopeOpened?, h.root, h.named_eq m (hm.lt_size ht), h.opens?_stays ht hm]

theorem isScope_stays (ht : t.Consistent) (h : Cut t t' q n gone) (hm : Stays t gone m) :
    t'.isScope m = t.isScope m := by
  simp only [isScope, h.root, h.scopeOpened?_stays ht hm]

theorem scopeKind_stays (ht : t.Consistent) (h : Cut t t' q n gone) (hm : Stays t gone m) :
    t'.scopeKind m = t.scopeKind m := by
  simp only [scopeKind, h.scopeOpened?_stays ht hm]

theorem stays_of_mem_lineage (ht : t.Consistent) (hm : Stays t gone m) {a : NodeId}
    (ha : a ∈ t.lineage m) : Stays t gone a :=
  hm.of_below ht ((mem_lineage_iff ht hm.1).mp ha)

theorem scopeChain_stays (ht : t.Consistent) (h : Cut t t' q n gone) (hm : Stays t gone m) :
    t'.scopeChain m = t.scopeChain m := by
  rw [scopeChain, scopeChain, h.lineage_stays ht hm]
  exact List.filter_congr fun a ha => h.isScope_stays ht (stays_of_mem_lineage ht hm ha)

theorem scopeNode_stays (ht : t.Consistent) (h : Cut t t' q n gone) (hm : Stays t gone m) :
    t'.scopeNode m = t.scopeNode m := by
  rw [scopeNode, scopeNode, h.scopeChain_stays ht hm, h.root]

theorem outerNode_stays (ht : t.Consistent) (h : Cut t t' q n gone) (hm : Stays t gone m) :
    t'.outerNode m = t.outerNode m := by
  unfold outerNode
  rw [h.parent_stays ht hm, h.root]
  cases hp : t.parent m with
  | none => rfl
  | some p => exact h.scopeNode_stays ht (hm.parent ht hp)

theorem hoistNode_stays (ht : t.Consistent) (h : Cut t t' q n gone) (hm : Stays t gone m) :
    t'.hoistNode m = t.hoistNode m := by
  rw [hoistNode, hoistNode, h.scopeChain_stays ht hm, h.root]
  congr 1
  refine Lists.find?_congr fun a ha => ?_
  rw [h.scopeKind_stays ht (stays_of_mem_lineage ht hm (List.mem_filter.mp ha).1)]

theorem visitOf_stays (ht : t.Consistent) (h : Cut t t' q n gone) (hm : Stays t gone m) :
    t'.visitOf m = t.visitOf m := by
  rw [visitOf, visitOf, h.outerNode_stays ht hm, h.scopeNode_stays ht hm]

/-! ## Children -/

theorem child?_of_ne (ht : t.Consistent) (h : Cut t t' q n gone) (hne : m ≠ q) (f : Field) :
    t'.child? m f = t.child? m f := by
  rw [child?, child?, h.children_other m hne]
  refine Lists.find?_congr fun c hc => ?_
  rw [h.field_eq c (lt_size_of_parent ((ht.mem_children m c).mp hc))]

theorem namedChildren_of_ne (ht : t.Consistent) (h : Cut t t' q n gone) (hne : m ≠ q) :
    t'.namedChildren m = t.namedChildren m := by
  rw [namedChildren, namedChildren, h.children_other m hne]
  refine List.filter_congr fun c hc => ?_
  rw [h.named_eq c (lt_size_of_parent ((ht.mem_children m c).mp hc))]

end Cut

theorem Detached.namedChildren_cut (ht : t.Consistent) (h : Detached t t' q n gone) :
    t'.namedChildren q = (t.namedChildren q).filter (· ∉ gone) := by
  rw [namedChildren, namedChildren, h.children_cut, List.filter_filter, List.filter_filter]
  refine List.filter_congr fun c hc => ?_
  rw [h.named_eq c (lt_size_of_parent ((ht.mem_children q c).mp hc)), Bool.and_comm]

/-! ## Patterns -/

section Patterns

variable {i : NodeId} {f : Field}

/-- The patterns below a node that stays are as before, and the identifiers in them stay. -/
theorem patternNamesFrom_stays (ht : t.Consistent) (h : Pruning t t' q n gone) {fuel : Nat}
    (hm : Stays t gone m) : t'.patternNamesFrom fuel m = t.patternNamesFrom fuel m ∧
      ∀ i ∈ t.patternNamesFrom fuel m, Stays t gone i := by
  induction fuel generalizing m with
  | zero => exact ⟨rfl, fun i hi => absurd hi List.not_mem_nil⟩
  | succ fuel ih =>
    have hkind : t'.kind m = t.kind m := h.cut.kind_eq m (hm.lt_size ht)
    have inside : m ≠ q → ∀ {c}, t.parent c = some m → Stays t gone c := fun hne _ hp =>
      hm.child_of_ne h.cut hp hne
    have many : m ≠ q →
        (t'.namedChildren m).flatMap (t'.patternNamesFrom fuel) =
          (t.namedChildren m).flatMap (t.patternNamesFrom fuel) ∧
        ∀ i ∈ (t.namedChildren m).flatMap (t.patternNamesFrom fuel), Stays t gone i := by
      intro hne
      rw [h.cut.namedChildren_of_ne ht hne]
      refine ⟨List.flatMap_congr fun c hc => (ih (inside hne (parent_of_namedChild ht hc))).1, ?_⟩
      intro i hi
      obtain ⟨c, hc, hi⟩ := List.mem_flatMap.mp hi
      exact (ih (inside hne (parent_of_namedChild ht hc))).2 i hi
    have one : m ≠ q → ∀ f : Field, t'.patternNamesIn fuel m f = t.patternNamesIn fuel m f ∧
        ∀ i ∈ t.patternNamesIn fuel m f, Stays t gone i := by
      intro hne f
      rw [patternNamesIn, patternNamesIn, h.cut.child?_of_ne ht hne]
      cases hc : t.child? m f with
      | none => exact ⟨rfl, fun i hi => absurd hi List.not_mem_nil⟩
      | some c => exact ih (inside hne (parent_of_child? ht hc))
    rw [patternNamesFrom, patternNamesFrom, hkind]
    cases hk : t.kind m <;>
      first
        | exact ⟨rfl, fun i hi => List.mem_singleton.mp hi ▸ hm⟩
        | exact ⟨rfl, fun i hi => absurd hi List.not_mem_nil⟩
        | exact many (h.ne_of_not_site (by rw [hk]; rfl))
        | exact one (h.ne_of_not_site (by rw [hk]; rfl)) _

theorem patternNamesFrom_fuel {k l : Nat} (hkl : k ≤ l) {m : NodeId}
    (hg : t.Grounded k m) : t.patternNamesFrom l m = t.patternNamesFrom k m := by
  induction k generalizing l m with
  | zero => exact hg.elim
  | succ k ih =>
    obtain ⟨l, rfl⟩ : ∃ j, l = j + 1 := ⟨l - 1, by omega⟩
    have many : (t.namedChildren m).flatMap (t.patternNamesFrom l) =
        (t.namedChildren m).flatMap (t.patternNamesFrom k) :=
      List.flatMap_congr fun c hc => ih (by omega) (hg c (List.mem_filter.mp hc).1)
    have one : ∀ f : Field, t.patternNamesIn l m f = t.patternNamesIn k m f := by
      intro f
      unfold patternNamesIn
      cases hc : t.child? m f with
      | none => rfl
      | some c => exact ih (by omega) (hg c (mem_children_of_child? hc))
    rw [patternNamesFrom, patternNamesFrom]
    cases hk : t.kind m <;> first | rfl | exact many | exact one _

/-- As `patternNamesFrom_stays`, for the pattern in a field that was not cut. -/
theorem patternNames_stays (ht : t.Consistent) (h : Pruning t t' q n gone) (hm : Stays t gone m)
    (hchild : t'.child? m f = t.child? m f) (hgone : ∀ c, t.child? m f = some c → c ∉ gone) :
    t'.patternNames m f = t.patternNames m f ∧ ∀ i ∈ t.patternNames m f, Stays t gone i := by
  unfold patternNames
  rw [hchild]
  cases hc : t.child? m f with
  | none => exact ⟨rfl, fun i hi => absurd hi List.not_mem_nil⟩
  | some c =>
    have hs : Stays t gone c := hm.child (parent_of_child? ht hc) (hgone c hc)
    have hsame : t'.patternNamesFrom t.size c = _ ∧ _ := patternNamesFrom_stays ht h hs
    refine ⟨?_, hsame.2⟩
    have hg : t'.Grounded t.size c := h.cut.grounded ht (hs.1.grounded ht)
    exact (patternNamesFrom_fuel h.cut.size_le hg).trans hsame.1

end Patterns

/-! ## Declarations -/

namespace Pruning

variable {f : Field}

/-- A field that is no slot holds the same node in the nodes that stay and declare something. -/
theorem child?_slot (ht : t.Consistent) (h : Pruning t t' q n gone) (hm : t.kind m = .forInStatement)
    (hf : f ≠ .body) :
    t'.child? m f = t.child? m f ∧ ∀ c, t.child? m f = some c → c ∉ gone := by
  by_cases hq : m = q
  · subst hq
    rcases h with ⟨h, _⟩ | ⟨h, hcut, rfl⟩ | ⟨h, _, _⟩ | ⟨h, _⟩
    · rw [hm] at h
      cases h
    · have hfield : (t.node n).field = some .body := by
        rw [hm] at h
        unfold Kind.hasSlot at h
        split at h <;> simp_all
      have hne : ∀ c, t.child? m f = some c → c ≠ n := by
        rintro c hc rfl
        rw [field_of_child? hc] at hfield
        exact hf (Option.some.inj hfield)
      refine ⟨?_, fun c hc hg => hne c hc (List.mem_singleton.mp hg)⟩
      rw [child?, hcut.children_cut, List.find?_map]
      have hp : (t.children m).find? ((fun c => decide ((t'.node c).field = some f)) ∘
          fun c => if c = n then t.size else c) = t.child? m f := by
        refine Lists.find?_congr fun c hc => ?_
        rw [Function.comp_apply]
        split
        · rename_i hcn
          rw [hcn, hcut.fresh_field]
        · rw [hcut.field_eq c (lt_size_of_parent ((ht.mem_children m c).mp hc))]
      rw [hp]
      cases hc : t.child? m f with
      | none => rfl
      | some c => simp [hne c hc]
    · rw [hm] at h
      cases h
    · rw [hm] at h
      cases h
  · refine ⟨h.cut.child?_of_ne ht hq f, fun c hc hg => hq ?_⟩
    exact Option.some.inj ((parent_of_child? ht hc).symm.trans (h.cut.parent_of_gone c hg))

theorem child?_of_not_site (ht : t.Consistent) (h : Pruning t t' q n gone)
    (hm : (t.kind m).isSite = false) :
    t'.child? m f = t.child? m f ∧ ∀ c, t.child? m f = some c → c ∉ gone := by
  have hne := h.ne_of_not_site hm
  refine ⟨h.cut.child?_of_ne ht hne f, fun c hc hg => hne ?_⟩
  exact Option.some.inj ((parent_of_child? ht hc).symm.trans (h.cut.parent_of_gone c hg))

theorem patternNames_of_not_site (ht : t.Consistent) (h : Pruning t t' q n gone) (hm : Stays t gone m)
    (hsite : (t.kind m).isSite = false) (f : Field) :
    t'.patternNames m f = t.patternNames m f ∧ ∀ i ∈ t.patternNames m f, Stays t gone i :=
  patternNames_stays ht h hm (h.child?_of_not_site ht hsite).1 (h.child?_of_not_site ht hsite).2

/-- The keyword of a declaration is not cut. -/
theorem child?_keyword (ht : t.Consistent) (hs : t.Framed) (h : Pruning t t' q n gone)
    (hm : Stays t gone m) (hk : t.kind m = .variableDeclarator) (hp : t.parent m = some p) {k : NodeId}
    (hck : t.child? p .kind = some k) (hkd : t.kind k ≠ .variableDeclarator) (hkc : t.kind k ≠ .comma) :
    t'.child? p .kind = some k := by
  by_cases hq : p = q
  · subst hq
    obtain ⟨hn, hcut⟩ := h.declarator_of_holds (hs.keyword m p hm.1 hk hp).1
    have hkgone : k ∉ gone := by
      intro hg
      rcases hcut.gone_comma k hg with rfl | hc
      · exact hkd hn
      · exact hkc hc
    rw [child?, hcut.children_cut]
    refine Lists.find?_filter_of_some ?_ (by simpa using hkgone)
    rw [← hck, child?]
    refine Lists.find?_congr fun c hc => ?_
    rw [hcut.field_eq c (lt_size_of_parent ((ht.mem_children p c).mp hc))]
  · rw [h.cut.child?_of_ne ht hq, hck]

theorem keyword_stays (ht : t.Consistent) (hs : t.Framed) (h : Pruning t t' q n gone)
    (hm : Stays t gone m) (hk : t.kind m = .variableDeclarator) :
    t'.declarationKeyword (t'.parent m) = t.declarationKeyword (t.parent m) := by
  rw [h.cut.parent_stays ht hm]
  cases hp : t.parent m with
  | none => rfl
  | some p =>
    have hkind : t'.kind p = t.kind p := h.cut.kind_eq p (ht.parent_lt hp)
    obtain ⟨_, hvar | ⟨k, hck, hkd, hkc⟩⟩ := hs.keyword m p hm.1 hk hp
    · simp [declarationKeyword, hkind, hvar]
    · have hck' := child?_keyword ht hs h hm hk hp hck hkd hkc
      have htext : t'.text k = t.text k :=
        h.cut.text_eq k (lt_size_of_parent (parent_of_child? ht hck))
      simp [declarationKeyword, hkind, hck, hck', htext]

end Pruning

end Tree

open DeadCode.Tree

namespace Visit

variable {t t' : Tree} {q n m : NodeId} {gone : List NodeId} {σ : Type} {v : Visit σ} {hoist : σ}

theorem declares_stays (ht : t.Consistent) (h : Cut t t' q n gone) {is : List NodeId}
    (his : ∀ i ∈ is, Stays t gone i) (target : σ) (keyword : String) (construct : Construct) (path : NodeId) :
    is.map (declares target keyword construct t' path) = is.map (declares target keyword construct t path) := by
  refine List.map_congr_left fun i hi => ?_
  rw [declares, declares, h.text_eq i ((his i hi).lt_size ht)]

/-- Declarations of identifiers that stay all stay. -/
theorem filter_stays (ht : t.Consistent) (h : Cut t t' q n gone) (hq : t.Below t.root q)
    {ds : List (Declaration σ)} (hds : ∀ d ∈ ds, Stays t gone d.identifier) :
    ds.filter (·.identifier ∉ t.offcut gone) = ds := by
  refine List.filter_eq_self.mpr fun d hd => ?_
  simpa using ((stays_iff_mem ht h hq).mp (hds d hd)).2

theorem namedChildren_stays (ht : t.Consistent) (h : Pruning t t' q n gone)
    (hk : (t.kind m).listsImports = true) :
    t'.namedChildren m = (t.namedChildren m).filter (· ∉ gone) := by
  by_cases hmq : m = q
  · subst hmq
    exact (h.detached_of_listsImports hk).namedChildren_cut ht
  · rw [h.cut.namedChildren_of_ne ht hmq]
    refine (List.filter_eq_self.mpr fun c hc => ?_).symm
    simp only [decide_eq_true_eq]
    intro hg
    exact hmq (Option.some.inj ((parent_of_namedChild ht hc).symm.trans (h.cut.parent_of_gone c hg)))

/-- What the parts of an import declare: a part that left took its identifiers with it. -/
theorem flatMap_stays (ht : t.Consistent) (h : Pruning t t' q n gone) (hq : t.Below t.root q)
    (hm : Stays t gone m) (hk : (t.kind m).listsImports = true) {f f' : NodeId → List (Declaration σ)}
    (hkeep : ∀ c, Stays t gone c → f' c = (f c).filter (·.identifier ∉ t.offcut gone))
    (hbelow : ∀ c, ∀ d ∈ f c, t.Below c d.identifier) :
    (t'.namedChildren m).flatMap f' =
      ((t.namedChildren m).flatMap f).filter (·.identifier ∉ t.offcut gone) := by
  rw [namedChildren_stays ht h hk, List.filter_flatMap,
    ← Lists.flatMap_filter_of_nil (p := (decide <| · ∉ gone)) (l := t.namedChildren m)]
  · refine List.flatMap_congr fun c hc => hkeep c ?_
    obtain ⟨hc, hg⟩ := List.mem_filter.mp hc
    exact hm.child (parent_of_namedChild ht hc) (by simpa using hg)
  · intro c _ hg
    refine List.filter_eq_nil_iff.mpr fun d hd => ?_
    have hcg : c ∈ gone := by simpa using hg
    simpa using (h.cut.mem_offcut_iff ht hq).mpr ⟨c, hcg, hbelow c d hd⟩

theorem ofSpecifier_stays (ht : t.Consistent) (h : Pruning t t' q n gone) (hq : t.Below t.root q)
    (hm : Stays t gone m) : v.ofSpecifier t' m =
      (v.ofSpecifier t m).filter (·.identifier ∉ t.offcut gone) := by
  have hkind : t'.kind m = t.kind m := h.cut.kind_eq m (hm.lt_size ht)
  by_cases hk : t.kind m = .importSpecifier
  · have hsite : (t.kind m).isSite = false := by rw [hk]; rfl
    have hne := h.ne_of_not_site hsite
    have hstays : ∀ d ∈ v.ofSpecifier t m, Stays t gone d.identifier := fun d hd =>
      hm.child_of_ne h.cut (mem_ofSpecifier ht hd).2.1 hne
    rw [filter_stays ht h.cut hq hstays]
    simp only [ofSpecifier, hkind, hk, if_true, (h.child?_of_not_site ht hsite).1]
    cases hi : (t.child? m .alias).or (t.child? m .name) with
    | none => rfl
    | some i =>
      have hp : t.parent i = some m := by
        rcases Option.or_eq_some_iff.mp hi with h | ⟨_, h⟩
        · exact parent_of_child? ht h
        · exact parent_of_child? ht h
      have hlt := lt_size_of_parent hp
      simp only [h.cut.kind_eq i hlt, declares, h.cut.text_eq i hlt]
  · simp [ofSpecifier, hkind, hk]

theorem ofClauseMember_stays (ht : t.Consistent) (h : Pruning t t' q n gone) (hq : t.Below t.root q)
    (hm : Stays t gone m) : v.ofClauseMember t' m =
      (v.ofClauseMember t m).filter (·.identifier ∉ t.offcut gone) := by
  have hkind : t'.kind m = t.kind m := h.cut.kind_eq m (hm.lt_size ht)
  unfold ofClauseMember
  rw [hkind]
  split <;> rename_i hk
  · rw [filter_stays ht h.cut hq fun d hd => by rw [List.mem_singleton.mp hd]; exact hm]
    simp only [declares, h.cut.text_eq m (hm.lt_size ht)]
  · have hne := h.ne_of_not_site (m := m) (by rw [hk]; rfl)
    have his : ∀ i ∈ (t.namedChildren m).filter (fun i => t.kind i = .identifier), Stays t gone i :=
      fun i hi => hm.child_of_ne h.cut (parent_of_namedChild ht (List.mem_filter.mp hi).1) hne
    have hsame : (t'.namedChildren m).filter (fun i => t'.kind i = .identifier) =
        (t.namedChildren m).filter fun i => t.kind i = .identifier := by
      rw [h.cut.namedChildren_of_ne ht hne]
      refine List.filter_congr fun i hi => ?_
      rw [h.cut.kind_eq i (lt_size_of_parent (parent_of_namedChild ht hi))]
    rw [hsame, declares_stays ht h.cut his, filter_stays ht h.cut hq]
    intro d hd
    obtain ⟨i, hi, rfl⟩ := List.mem_map.mp hd
    exact his i hi
  · exact flatMap_stays ht h hq hm (by rw [hk]; rfl) (fun c hc => ofSpecifier_stays ht h hq hc)
      fun c d hd => .of_parent (mem_ofSpecifier ht hd).2.1
  · rfl

theorem ofImportPart_stays (ht : t.Consistent) (h : Pruning t t' q n gone) (hq : t.Below t.root q)
    (hm : Stays t gone m) : v.ofImportPart t' m =
      (v.ofImportPart t m).filter (·.identifier ∉ t.offcut gone) := by
  have hkind : t'.kind m = t.kind m := h.cut.kind_eq m (hm.lt_size ht)
  unfold ofImportPart
  rw [hkind]
  split <;> rename_i hk
  · have hne := h.ne_of_not_site (m := m) (by rw [hk]; rfl)
    have hsame : (t'.namedChildren m).find? (fun i => t'.kind i = .identifier) =
        (t.namedChildren m).find? fun i => t.kind i = .identifier := by
      rw [h.cut.namedChildren_of_ne ht hne]
      refine Lists.find?_congr fun i hi => ?_
      rw [h.cut.kind_eq i (lt_size_of_parent (parent_of_namedChild ht hi))]
    have his : ∀ i ∈ ((t.namedChildren m).find? fun i => t.kind i = .identifier).toList,
        Stays t gone i := fun i hi =>
      hm.child_of_ne h.cut (parent_of_namedChild ht (List.mem_of_find?_eq_some (Option.mem_toList.mp hi))) hne
    rw [hsame, declares_stays ht h.cut his, filter_stays ht h.cut hq]
    intro d hd
    obtain ⟨i, hi, rfl⟩ := List.mem_map.mp hd
    exact his i hi
  · refine flatMap_stays ht h hq hm (by rw [hk]; rfl) (fun c hc => ofClauseMember_stays ht h hq hc) ?_
    intro c d hd
    rcases below_of_mem_ofClauseMember ht hd with he | ⟨_, hi⟩
    · exact he ▸ .refl
    · exact hi.to_below
  · rfl

theorem ofImport_stays (ht : t.Consistent) (h : Pruning t t' q n gone) (hq : t.Below t.root q)
    (hm : Stays t gone v.node) (hk : t.kind v.node = .importStatement) : v.ofImport t' =
      (v.ofImport t).filter (·.identifier ∉ t.offcut gone) := by
  rw [ofImport_eq, ofImport_eq]
  exact flatMap_stays ht h hq hm (by rw [hk]; rfl) (fun c hc => ofImportPart_stays ht h hq hc)
    fun c d hd => (carried_of_mem_ofImportPart ht hd).2.to_below

/-! ### All declarers -/

section Parts

variable (ht : t.Consistent) (h : Pruning t t' q n gone) (hm : Stays t gone v.node)

include ht h hm

theorem ofName_stays (hsite : (t.kind v.node).isSite = false) (target : σ) (keyword : String)
    (construct : Construct) :
    v.ofName t' target keyword construct = v.ofName t target keyword construct ∧
      ∀ d ∈ v.ofName t target keyword construct, Stays t gone d.identifier := by
  have his : ∀ i ∈ (t.child? v.node .name).toList, Stays t gone i := fun i hi =>
    hm.child_of_ne h.cut (parent_of_child? ht (Option.mem_toList.mp hi)) (h.ne_of_not_site hsite)
  refine ⟨?_, fun d hd => ?_⟩
  · rw [ofName, ofName, (h.child?_of_not_site ht hsite).1, declares_stays ht h.cut his]
  · obtain ⟨i, hi, rfl⟩ := List.mem_map.mp hd
    exact his i hi

theorem parameters_stays (hsite : (t.kind v.node).isSite = false) :
    v.parameters t' = v.parameters t ∧ ∀ d ∈ v.parameters t, Stays t gone d.identifier := by
  obtain ⟨h1, hs1⟩ := h.patternNames_of_not_site ht hm hsite .parameters
  obtain ⟨h2, hs2⟩ := h.patternNames_of_not_site ht hm hsite .parameter
  have his : ∀ i ∈ t.patternNames v.node .parameters ++ t.patternNames v.node .parameter,
      Stays t gone i := fun i hi => (List.mem_append.mp hi).elim (hs1 i) (hs2 i)
  refine ⟨?_, fun d hd => ?_⟩
  · rw [parameters, parameters, h1, h2, declares_stays ht h.cut his]
  · obtain ⟨i, hi, rfl⟩ := List.mem_map.mp hd
    exact his i hi

theorem ofDeclarator_stays (hs : t.Framed) (hk : t.kind v.node = .variableDeclarator) :
    v.ofDeclarator hoist t' = v.ofDeclarator hoist t ∧
      ∀ d ∈ v.ofDeclarator hoist t, Stays t gone d.identifier := by
  obtain ⟨h1, hs1⟩ := h.patternNames_of_not_site ht hm (by rw [hk]; rfl) .name
  have htext : (t.patternNames v.node .name).map t'.text = (t.patternNames v.node .name).map t.text :=
    List.map_congr_left fun i hi => h.cut.text_eq i ((hs1 i hi).lt_size ht)
  refine ⟨?_, fun d hd => ?_⟩
  · simp only [ofDeclarator, h.keyword_stays ht hs hm hk, h1, htext]
  · obtain ⟨i, hi, rfl⟩ := List.mem_map.mp hd
    exact hs1 i hi

theorem ofLoop_stays (hk : t.kind v.node = .forInStatement) :
    v.ofLoop hoist t' = v.ofLoop hoist t ∧ ∀ d ∈ v.ofLoop hoist t, Stays t gone d.identifier := by
  obtain ⟨hc, hg⟩ := h.child?_slot ht hk (f := .left) (by decide)
  obtain ⟨h1, hs1⟩ := patternNames_stays ht h hm hc hg
  unfold ofLoop
  rw [(h.child?_slot ht hk (f := .kind) (by decide)).1]
  cases hkind : t.child? v.node .kind with
  | none => exact ⟨rfl, fun d hd => absurd hd List.not_mem_nil⟩
  | some k =>
    have htext := h.cut.text_eq k (lt_size_of_parent (parent_of_child? ht hkind))
    refine ⟨?_, fun d hd => ?_⟩
    · simp only [htext, h1, declares_stays ht h.cut hs1]
    · obtain ⟨i, hi, rfl⟩ := List.mem_map.mp hd
      exact hs1 i hi

/-- Outside imports no declared identifier leaves without its declarer. -/
theorem declarationsAt_same (hs : t.Framed) (hk : t.kind v.node ≠ .importStatement) :
    v.declarationsAt hoist t' = v.declarationsAt hoist t ∧
      ∀ d ∈ v.declarationsAt hoist t, Stays t gone d.identifier := by
  have hkind : t'.kind v.node = t.kind v.node := h.cut.kind_eq _ (hm.lt_size ht)
  have both : ∀ {ds ds' es es' : List (Declaration σ)},
      (ds' = ds ∧ ∀ d ∈ ds, Stays t gone d.identifier) →
      (es' = es ∧ ∀ d ∈ es, Stays t gone d.identifier) →
      ds' ++ es' = ds ++ es ∧ ∀ d ∈ ds ++ es, Stays t gone d.identifier := fun hds hes =>
    ⟨by rw [hds.1, hes.1], fun d hd => (List.mem_append.mp hd).elim (hds.2 d) (hes.2 d)⟩
  have none : ∀ d ∈ ([] : List (Declaration σ)), Stays t gone d.identifier :=
    fun d hd => absurd hd List.not_mem_nil
  unfold declarationsAt
  rw [hkind]
  split <;> rename_i hkm
  · exact ofDeclarator_stays ht h hm hs hkm
  all_goals try
    have hsite : (t.kind v.node).isSite = false := by rw [hkm]; rfl
    first
      | exact both (ofName_stays ht h hm hsite _ _ _) (parameters_stays ht h hm hsite)
      | exact parameters_stays ht h hm hsite
      | exact ofName_stays ht h hm hsite _ _ _
  · have hsite : (t.kind v.node).isSite = false := by rw [hkm]; rfl
    rw [h.cut.named_eq _ (hm.lt_size ht)]
    split
    · exact ofName_stays ht h hm hsite _ _ _
    · exact ⟨rfl, none⟩
  · have hsite : (t.kind v.node).isSite = false := by rw [hkm]; rfl
    obtain ⟨h1, hs1⟩ := h.patternNames_of_not_site ht hm hsite .parameter
    refine ⟨by rw [h1, declares_stays ht h.cut hs1], fun d hd => ?_⟩
    obtain ⟨i, hi, rfl⟩ := List.mem_map.mp hd
    exact hs1 i hi
  · exact ofLoop_stays ht h hm hkm
  · exact absurd hkm hk
  · exact ⟨rfl, none⟩

/-- What a node that stays declares is what it declared, less the identifiers that left. -/
theorem declarationsAt_stays (hs : t.Framed) (hq : t.Below t.root q) : v.declarationsAt hoist t' =
    (v.declarationsAt hoist t).filter (·.identifier ∉ t.offcut gone) := by
  by_cases hk : t.kind v.node = .importStatement
  · have hkind : t'.kind v.node = t.kind v.node := h.cut.kind_eq _ (hm.lt_size ht)
    have himport := ofImport_stays ht h hq hm hk
    simp only [declarationsAt, hkind, hk]
    exact himport
  · obtain ⟨hsame, hids⟩ := declarationsAt_same ht h hm hs hk
    rw [filter_stays ht h.cut hq hids, hsame]

end Parts

end Visit

namespace Tree

variable {t t' : Tree} {q n m : NodeId} {gone : List NodeId}

theorem declarationsOf_stays (ht : t.Consistent) (hs : t.Framed) (h : Pruning t t' q n gone)
    (hq : t.Below t.root q) (hm : Stays t gone m) : t'.declarationsOf m =
      (t.declarationsOf m).filter (·.identifier ∉ t.offcut gone) := by
  rw [declarationsOf, declarationsOf, h.cut.visitOf_stays ht hm, h.cut.hoistNode_stays ht hm]
  exact Visit.declarationsAt_stays ht h hm hs hq

theorem stays_of_declared (ht : t.Consistent) (hs : t.Framed) (h : Pruning t t' q n gone)
    (hm : Stays t gone m) (hk : t.kind m ≠ .importStatement) {d : Declaration NodeId}
    (hd : d ∈ t.declarationsOf m) : Stays t gone d.identifier :=
  (Visit.declarationsAt_same ht h (v := t.visitOf m) hm hs hk).2 d hd

end Tree
end DeadCode
