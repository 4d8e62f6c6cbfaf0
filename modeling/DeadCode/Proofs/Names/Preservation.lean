import DeadCode.Proofs.Names.Closed

/-!
The shape of a tree outlives the edits of the elimination (`shape_cut`), and so do the conditions on
declarators and on exports.
-/

namespace DeadCode.Tree

variable {t t' : Tree} {q n m c p : NodeId} {gone : List NodeId}

namespace Cut

/-- An attached node stayed or is the fresh leaf. -/
theorem stays_or_fresh (ht : t.Consistent) (h : Cut t t' q n gone) (hm : t'.Below t'.root m) :
    Stays t gone m ∨ t.size ≤ m ∧ m < t'.size := by
  rcases lt_or_ge m t.size with hlt | hge
  · exact .inl ((stays_iff ht h hlt).mpr hm)
  · exact .inr ⟨hge, hm.lt_size (h.consistent ht)⟩

theorem stays_of_kind (ht : t.Consistent) (h : Cut t t' q n gone) (hm : t'.Below t'.root m)
    (hk : t'.kind m ≠ .emptyStatement) : Stays t gone m ∧ t.kind m = t'.kind m := by
  rcases h.stays_or_fresh ht hm with hst | ⟨hge, hlt⟩
  · exact ⟨hst, (h.kind_eq m (hst.lt_size ht)).symm⟩
  · exact absurd (h.fresh_kind m hge hlt) hk

/-- Attached children of old were children before. -/
theorem mem_children_of_cut (ht : t.Consistent) (h : Cut t t' q n gone) (hc : c ∈ t'.children p) :
    c ∈ t.children p ∨ t'.children c = [] := by
  rcases lt_or_ge c t.size with hlt | hge
  · exact .inl ((h.mem_children_iff ht hlt).mp hc).1
  · exact .inr (h.fresh_leaf ht hge)

end Cut

section Framed

variable (ht : t.Consistent) (hs : t.Framed) (h : Pruning t t' q n gone)

include ht hs h

theorem leaf_cut (hm : t'.Below t'.root m)
    (hleaf : (t'.kind m).isLeaf = true ∨ (t'.node m).named = false) : t'.children m = [] := by
  rcases h.cut.stays_or_fresh ht hm with hst | ⟨hge, _⟩
  · refine h.cut.children_nil ht (hs.leaf m hst.1 ?_)
    rwa [← h.cut.kind_eq m (hst.lt_size ht), ← h.cut.named_eq m (hst.lt_size ht)]
  · exact h.cut.fresh_leaf ht hge

theorem keyword_cut (hm : Stays t gone m) (hk : t.kind m = .variableDeclarator) (hp : t.parent m = some p) :
    (t'.kind p).holdsDeclarators = true ∧ (t'.kind p = .variableDeclaration ∨
      ∃ k, t'.child? p .kind = some k ∧ t'.kind k ≠ .variableDeclarator ∧ t'.kind k ≠ .comma) := by
  rw [h.cut.kind_eq p (ht.parent_lt hp)]
  refine (hs.keyword m p hm.1 hk hp).imp_right fun hkey => hkey.imp_right ?_
  rintro ⟨k, hck, hkd, hkc⟩
  refine ⟨k, h.child?_keyword ht hs hm hk hp hck hkd hkc, ?_⟩
  rw [h.cut.kind_eq k (lt_size_of_parent (parent_of_child? ht hck))]
  exact ⟨hkd, hkc⟩

theorem framed_cut : t'.Framed where
  root_program := by rw [h.cut.root, h.cut.kind_eq _ ht.root_lt, hs.root_program]
  leaf m hm := leaf_cut ht hs h hm
  keyword m p hm hk hp := by
    obtain ⟨hst, hkm⟩ := h.cut.stays_of_kind ht hm (by rw [hk]; decide)
    exact keyword_cut ht hs h hst (hkm.trans hk) (h.cut.parent_stays ht hst ▸ hp)
  exportSpecifier m p hm hk hp := by
    obtain ⟨hst, hkm⟩ := h.cut.stays_of_kind ht hm (by rw [hk]; decide)
    have hp : t.parent m = some p := h.cut.parent_stays ht hst ▸ hp
    obtain ⟨s, hps, hks⟩ := hs.exportSpecifier m p hst.1 (hkm.trans hk) hp
    have hpst := hst.parent ht hp
    exact ⟨s, (h.cut.parent_stays ht hpst).trans hps, (h.cut.kind_eq s (ht.parent_lt hps)).trans hks⟩

end Framed

theorem shape_cut (ht : t.Consistent) (hs : t.Shape) (h : Pruning t t' q n gone) : t'.Shape where
  toFramed := framed_cut ht hs.toFramed h
  declaration m p hm hk hp c hc := by
    obtain ⟨hst, hkm⟩ := h.cut.stays_of_kind ht hm (by rw [hk]; decide)
    rcases h.cut.mem_children_of_cut ht hc with hc | hnil
    · rw [h.cut.kind_eq c (lt_size_of_parent ((ht.mem_children p c).mp hc))]
      exact (hs.declaration m p hst.1 (hkm.trans hk) (h.cut.parent_stays ht hst ▸ hp) c hc).imp_right
        (h.cut.children_nil ht)
    · exact .inr hnil
  expression m hm hk := by
    obtain ⟨hst, hkm⟩ := h.cut.stays_of_kind ht hm (by rw [hk]; decide)
    obtain ⟨e, he⟩ := hs.expression m hst.1 (hkm.trans hk)
    refine ⟨e, fun c hc hne => h.cut.children_nil ht (he c ?_ hne)⟩
    rwa [h.cut.children_other m (h.ne_of_not_site (by rw [hkm, hk]; rfl))] at hc
  assignment m hm hk c hc := by
    obtain ⟨hst, hkm⟩ := h.cut.stays_of_kind ht hm (by rw [hk]; decide)
    have hsite : (t.kind m).isSite = false := by rw [hkm, hk]; rfl
    rw [h.cut.children_other m (h.ne_of_not_site hsite)] at hc
    rw [(h.child?_of_not_site ht hsite).1, (h.child?_of_not_site ht hsite).1]
    exact (hs.assignment m hst.1 (hkm.trans hk) c hc).imp_right fun hc => hc.imp_right (h.cut.children_nil ht)
  specifier m c hm hk hb := by
    obtain ⟨hst, hkm⟩ := h.cut.stays_of_kind ht hm (by rw [hk]; decide)
    rcases h.cut.stays_or_fresh ht (hm.trans hb) with hc | ⟨hge, hlt⟩
    · rw [h.cut.kind_eq c (hc.lt_size ht)]
      exact hs.specifier m c hst.1 (hkm.trans hk) (h.cut.below_of_below ht (hc.lt_size ht) hb)
    · rw [h.cut.fresh_kind c hge hlt]
      rfl
  function_named m hm hk := by
    obtain ⟨hst, hkm⟩ := h.cut.stays_of_kind ht hm (by rcases hk with hk | hk <;> rw [hk] <;> decide)
    rw [h.cut.named_eq m (hst.lt_size ht)]
    exact hs.function_named m hst.1 (by rwa [hkm])

/-! ## Declarators and exports -/

theorem target_stays (ht : t.Consistent) (hm : Stays t gone m) {d : Declaration NodeId}
    (hd : d ∈ t.declarationsOf m) : Stays t gone d.target := by
  rcases Visit.target_of_mem ht hd with he | he | he
  · exact he ▸ hm.of_below ht (outerNode_below ht hm.1)
  · exact he ▸ hm.of_below ht (scopeNode_below ht hm.1)
  · rw [he]
    exact hm.of_below ht ((mem_scopeChain_iff ht hm.1).mp (hoistNode_mem ht hm.1)).1

theorem local_cut (ht : t.Consistent) (hs : t.Framed) (h : Pruning t t' q n gone) (hq : t.Below t.root q)
    (hc : Closed t.redeclared (t.offcut gone)) (hl : t.Local) : t'.Local := by
  intro d hd m hdm p hp hk hb hne
  rw [bindings_cut ht hs h hq hc] at hd
  obtain ⟨hpst, hkp⟩ := h.cut.stays_of_kind ht hp (by rw [hk]; decide)
  rcases h.cut.stays_or_fresh ht (hp.trans hb) with hst | ⟨hge, hlt⟩
  · rw [declarationsOf_stays ht hs h hq hst] at hdm
    have hdm := (List.mem_filter.mp hdm).1
    have hbelow := hl d (List.mem_filter.mp hd).1 m hdm p hpst.1 (hkp.trans hk)
      (h.cut.below_of_below ht (hst.lt_size ht) hb) hne
    exact h.cut.below_kept hbelow (target_stays ht hst hdm).2
  · rw [declarationsOf_fresh h.cut hge hlt] at hdm
    exact absurd hdm List.not_mem_nil

theorem exportsDeclarations_cut (ht : t.Consistent) (h : Pruning t t' q n gone)
    (he : t.ExportsDeclarations) : t'.ExportsDeclarations := by
  intro s d hs hk hd hsite
  obtain ⟨hst, hks⟩ := h.cut.stays_of_kind ht hs (by rw [hk]; decide)
  rw [(h.child?_of_not_site ht (m := s) (by rw [hks, hk]; rfl)).1] at hd
  have hkd := h.cut.kind_eq d (lt_size_of_parent (parent_of_child? ht hd))
  rw [hkd] at hsite ⊢
  refine (he s d hst.1 (hks.trans hk) hd hsite).imp_right fun hd => hd.imp_right fun hd => hd.imp_right ?_
  intro hnone c hc
  rcases lt_or_ge c t.size with hlt | hge
  · rw [h.cut.kind_eq c hlt]
    exact hnone c ((h.cut.mem_children_iff ht hlt).mp hc).1
  · have hcd := ((h.cut.consistent ht).mem_children d c).mp hc
    rw [h.cut.fresh_kind c hge (lt_size_of_parent hcd)]
    decide

/-! ## Names that keep their meaning -/

/-- Of the nodes of `t` that are left in `t'`, each refers to what it referred to, and no binding is new. -/
structure Keeps (t t' : Tree) : Prop where
  size_le : t.size ≤ t'.size
  attached : ∀ m < t.size, t'.Below t'.root m → t.Below t.root m
  text : ∀ m < t.size, t'.text m = t.text m
  kind : ∀ m < t.size, t'.kind m = t.kind m
  named : ∀ m < t.size, t'.Below t'.root m → t'.named.filter (·.1 = m) = t.named.filter (·.1 = m)
  bindings : ∀ d ∈ t'.bindings, d ∈ t.bindings

namespace Keeps

theorem refl (t : Tree) : Keeps t t :=
  ⟨le_rfl, fun _ _ h => h, fun _ _ => rfl, fun _ _ => rfl, fun _ _ _ => rfl, fun _ hd => hd⟩

theorem trans {t'' : Tree} (h : Keeps t t') (h' : Keeps t' t'') : Keeps t t'' where
  size_le := h.size_le.trans h'.size_le
  attached m hm hb := h.attached m hm (h'.attached m (lt_of_lt_of_le hm h.size_le) hb)
  text m hm := (h'.text m (lt_of_lt_of_le hm h.size_le)).trans (h.text m hm)
  kind m hm := (h'.kind m (lt_of_lt_of_le hm h.size_le)).trans (h.kind m hm)
  named m hm hb := by
    have hm' := lt_of_lt_of_le hm h.size_le
    exact (h'.named m hm' hb).trans (h.named m hm (h'.attached m hm' hb))
  bindings d hd := h.bindings d (h'.bindings d hd)

end Keeps

theorem keeps_cut (ht : t.Consistent) (hs : t.Framed) (h : Pruning t t' q n gone) (hq : t.Below t.root q)
    (hc : Closed t.named (t.offcut gone)) : Keeps t t' where
  size_le := h.cut.size_le
  attached m hm hb := ((h.cut.below_root_iff ht hm).mp hb).1
  text := h.cut.text_eq
  kind := h.cut.kind_eq
  named m hm hb := by
    have hoff := ((stays_iff_mem ht h.cut hq).mp ((stays_iff ht h.cut hm).mpr hb)).2
    rw [named_cut ht hs h hq hc, List.filter_filter]
    refine List.filter_congr fun r _ => ?_
    by_cases hr : r.1 = m
    · simp [hr, hoff]
    · simp [hr]
  bindings d hd := by
    rw [bindings_cut ht hs h hq (hc.mono redeclared_subset_named)] at hd
    exact (List.mem_filter.mp hd).1

/-! ## Exports -/

/-- The names that declarators among some nodes bind. -/
def declaratorNames (t : Tree) (cs : List NodeId) : List NodeId :=
  cs.flatMap fun c => if t.kind c = .variableDeclarator then t.patternNames c .name else []

theorem declaredNames_eq (t : Tree) (n : NodeId) : t.declaredNames n =
    if t.kind n = .lexicalDeclaration ∨ t.kind n = .variableDeclaration then
      t.declaratorNames (t.namedChildren n)
    else (t.child? n .name).toList := by
  unfold declaredNames
  split <;> rename_i h
  · rw [if_pos (.inl h)]
    rfl
  · rw [if_pos (.inr h)]
    rfl
  · rename_i h'
    rw [if_neg (not_or.mpr ⟨h', h⟩)]

section Exports

variable (ht : t.Consistent) (hs : t.Framed) (h : Pruning t t' q n gone) (hq : t.Below t.root q)

include ht h

theorem declaratorNames_cut (hm : Stays t gone m) {i : NodeId}
    (hi : i ∈ t'.declaratorNames (t'.namedChildren m)) :
    i ∈ t.declaratorNames (t.namedChildren m) ∧ Stays t gone i := by
  obtain ⟨c, hc, hi⟩ := List.mem_flatMap.mp hi
  split at hi
  · rename_i hkc
    have hcm := parent_of_namedChild (h.cut.consistent ht) hc
    have hroot : t'.Below t'.root m := (stays_iff ht h.cut (hm.lt_size ht)).mp hm
    obtain ⟨hcst, hkc'⟩ := h.cut.stays_of_kind ht (.step hcm hroot) (by rw [hkc]; decide)
    have hkc := hkc'.trans hkc
    have hsite : (t.kind c).isSite = false := by rw [hkc]; rfl
    have hnames := h.patternNames_of_not_site ht hcst hsite .name
    rw [hnames.1] at hi
    refine ⟨List.mem_flatMap.mpr ⟨c, ?_, by rwa [if_pos hkc]⟩, hnames.2 i hi⟩
    rw [namedChildren, List.mem_filter] at hc ⊢
    rw [h.cut.named_eq c (hcst.lt_size ht)] at hc
    exact ⟨((h.cut.mem_children_iff ht (hcst.lt_size ht)).mp hc.1).1, hc.2⟩
  · cases hi

/-- The names of a declaration that is not cut into, declarators apart. -/
theorem declaredNames_cut (hm : Stays t gone m)
    (hsite : (t.kind m).isSite = true → t.kind m = .lexicalDeclaration ∨ t.kind m = .variableDeclaration ∨
      (t.kind m).holdsDeclarators = true ∧ ∀ c ∈ t.children m, t.kind c ≠ .variableDeclarator)
    {i : NodeId} (hi : i ∈ t'.declaredNames m) : i ∈ t.declaredNames m ∧ Stays t gone i := by
  rw [declaredNames_eq, h.cut.kind_eq m (hm.lt_size ht)] at hi
  rw [declaredNames_eq]
  by_cases hk : t.kind m = .lexicalDeclaration ∨ t.kind m = .variableDeclaration
  · rw [if_pos hk] at hi ⊢
    exact declaratorNames_cut ht h hm hi
  · rw [if_neg hk] at hi ⊢
    have hne : m ≠ q := by
      rintro rfl
      rcases hsite h.site with hk' | hk' | ⟨hholds, hnone⟩
      · exact hk (.inl hk')
      · exact hk (.inr hk')
      · obtain ⟨hkn, hcut⟩ := h.declarator_of_holds hholds
        exact hnone n ((ht.mem_children m n).mpr hcut.parent_mem) hkn
    rw [h.cut.child?_of_ne ht hne] at hi
    have hchild := Option.mem_toList.mp hi
    exact ⟨hi, hm.child_of_ne h.cut (parent_of_child? ht hchild) hne⟩

/-- An export keeps naming what it named, less the declarators that left. -/
theorem exportsAt_cut (he : t.ExportsDeclarations) {v : Visit NodeId} {i : NodeId}
    (hst : Stays t gone v.node) (hi : i ∈ v.exportsAt t') : i ∈ v.exportsAt t ∧ Stays t gone i := by
  unfold Visit.exportsAt at hi ⊢
  rw [h.cut.kind_eq _ (hst.lt_size ht)] at hi
  by_cases hk : t.kind v.node = .exportStatement
  · rw [if_pos hk] at hi ⊢
    have hsite : (t.kind v.node).isSite = false := by rw [hk]; rfl
    rw [(h.child?_of_not_site ht hsite).1] at hi
    cases hd : t.child? v.node .declaration with
    | none =>
      rw [hd] at hi
      cases hi
    | some d =>
      rw [hd] at hi
      have hdst := hst.child_of_ne h.cut (parent_of_child? ht hd) (h.ne_of_not_site hsite)
      exact declaredNames_cut ht h hdst (fun hdsite => he _ d hst.1 hk hd hdsite) hi
  · rw [if_neg hk] at hi
    cases hi

include hs hq

/-- An export refers to what it referred to. -/
theorem exported_cut (he : t.ExportsDeclarations) (hc : Closed t.redeclared (t.offcut gone))
    (hce : Closed t.exported (t.offcut gone)) {r : NodeId × NodeId} (hr : r ∈ t'.exported) :
    r ∈ t.exported ∧ r.1 ∉ t.offcut gone := by
  have hkind := kind_of_exported hr
  obtain ⟨s, hs', i, hi, d, hd, rfl⟩ := mem_exported_iff.mp hr
  have hroot := (mem_walk_iff (h.cut.consistent ht)).mp hs'
  obtain ⟨hst, _⟩ := h.cut.stays_of_kind ht hroot (by rw [hkind]; decide)
  rw [h.cut.visitOf_stays ht hst] at hi
  obtain ⟨hi, hist⟩ := exportsAt_cut ht h he (v := t.visitOf s) hst hi
  obtain ⟨hwalk, hoff⟩ := (stays_iff_mem ht h.cut hq).mp hst
  have hmem : ∀ d, t.resolve? (t.outerNode s) (t.text i) = some d → (s, d.identifier) ∈ t.exported :=
    fun d hd => mem_exported_iff.mpr ⟨s, hwalk, i, hi, d, hd, rfl⟩
  have hres : ∀ d, t.resolve? (t.outerNode s) (t.text i) = some d → d.identifier ∉ t.offcut gone :=
    fun d hd hd' => hoff (hce _ (hmem d hd) hd')
  rw [h.cut.outerNode_stays ht hst, h.cut.text_eq i (hist.lt_size ht),
    resolve?_cut ht hs h hq hc (hst.of_below ht (outerNode_below ht hst.1)) hres] at hd
  exact ⟨hmem d hd, hoff⟩

end Exports

end DeadCode.Tree
