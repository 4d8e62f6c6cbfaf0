import DeadCode.Proofs.Engine.Residue

/-!
What leaves with the construct of a binding, and what does not. Clean cuts leave a residue (`Clips.residue`), and all
that goes is below the nodes cut off, commas apart (`Clips.lost`). What export statements refer to stays
(`Clips.exported`), and so does a last part of each declaration or import clause that stays (`Drops.parts`).
-/

namespace DeadCode

open DeadCode.Tree Workspace

variable {P : Prop} {id : AnalysisId} {w w' u : Workspace} {ns : List NodeId} {n m : NodeId}

namespace Tree

/-- Export statements stand at the top of the program. -/
def ExportsAtTop (t : Tree) : Prop :=
  ∀ s, t.Below t.root s → t.kind s = .exportStatement → t.parent s = some t.root

/-- The node is no export statement and no declarator of what one declares. -/
structure SparesExports (t : Tree) (n : NodeId) : Prop where
  statement : t.kind n ≠ .exportStatement
  declarator : t.kind n = .variableDeclarator → ∀ s D, t.Below t.root s → t.kind s = .exportStatement →
    t.child? s .declaration = some D → t.parent n ≠ some D

section Exports

variable {t t' : Tree} {q : NodeId} {gone : List NodeId}

/-- An export statement stays, with what it declares, if neither it nor a declarator of it is cut off. -/
theorem export_stays (hw : WellShaped True t) (hx : t.ExportsAtTop) (h : Pruning t t' q n gone)
    (hn : t.SparesExports n) {s D : NodeId} (hs : t.Below t.root s) (hk : t.kind s = .exportStatement)
    (hD : t.child? s .declaration = some D) : Stays t gone s ∧ Stays t gone D ∧ D ≠ q := by
  have ht := hw.consistent
  have hst : Stays t gone s := by
    refine ⟨hs, fun g hg hb => ?_⟩
    have hgs : g = s := by
      by_contra hne
      obtain ⟨p, hp, hgp⟩ := hb.parent (Ne.symm hne)
      obtain rfl := Option.some.inj ((hx s hs hk).symm.trans hp)
      cases hgp with
      | refl => exact h.cut.root_not_gone ht hg
      | step hp _ => rw [ht.root_parent] at hp; cases hp
    rcases h.gone_comma g hg with rfl | hcomma
    · exact hn.statement (hgs ▸ hk)
    · rw [hgs, hk] at hcomma
      cases hcomma
  refine ⟨hst, hst.child_of_ne h.cut (parent_of_child? ht hD) (h.ne_of_not_site (by rw [hk]; rfl)), ?_⟩
  rintro rfl
  have hholds : (t.kind D).holdsDeclarators = true := by
    rcases hw.exports trivial s D hs hk hD h.site with hkD | hkD | ⟨hholds, _⟩
    · rw [hkD]; rfl
    · rw [hkD]; rfl
    · exact hholds
  obtain ⟨hkn, hcut⟩ := h.declarator_of_holds hholds
  exact hn.declarator hkn s D hs hk hD hcut.parent_mem

/-- What is declared by a node that is not cut into. -/
theorem declaredNames_kept (ht : t.Consistent) (h : Pruning t t' q n gone) {D i : NodeId} (hD : Stays t gone D)
    (hne : D ≠ q) (hi : i ∈ t.declaredNames D) : i ∈ t'.declaredNames D ∧ Stays t gone i := by
  rw [declaredNames_eq] at hi
  rw [declaredNames_eq, h.cut.kind_eq D (hD.lt_size ht)]
  by_cases hk : t.kind D = .lexicalDeclaration ∨ t.kind D = .variableDeclaration
  · rw [if_pos hk] at hi ⊢
    obtain ⟨c, hc, hi⟩ := List.mem_flatMap.mp hi
    have hcst := hD.child_of_ne h.cut (parent_of_namedChild ht hc) hne
    split at hi
    · rename_i hkc
      have hsite : (t.kind c).isSite = false := by rw [hkc]; rfl
      have hnames := h.patternNames_of_not_site ht hcst hsite .name
      refine ⟨List.mem_flatMap.mpr ⟨c, (h.cut.namedChildren_of_ne ht hne).symm ▸ hc, ?_⟩, hnames.2 i hi⟩
      rw [if_pos ((h.cut.kind_eq c (hcst.lt_size ht)).trans hkc), hnames.1]
      exact hi
    · cases hi
  · rw [if_neg hk] at hi ⊢
    rw [h.cut.child?_of_ne ht hne]
    exact ⟨hi, hD.child_of_ne h.cut (parent_of_child? ht (Option.mem_toList.mp hi)) hne⟩

theorem exportsAt_of_child? {s D : NodeId} (hk : t.kind s = .exportStatement)
    (hD : t.child? s .declaration = some D) : (t.visitOf s).exportsAt t = t.declaredNames D := by
  rw [Visit.exportsAt, if_pos (show t.kind (t.visitOf s).node = _ from hk)]
  simp only [visitOf, hD]

/-- What export statements refer to stays if they do. -/
theorem exported_kept (hw : WellShaped True t) (hx : t.ExportsAtTop) (h : Pruning t t' q n gone)
    (hq : t.Below t.root q) (hc : t.Clean True (t.offcut gone)) (hn : t.SparesExports n) {r : NodeId × NodeId}
    (hr : r ∈ t.exported) : r ∈ t'.exported := by
  have ht := hw.consistent
  have hmem := hr
  have hk := kind_of_exported hr
  obtain ⟨s, hs, i, hi, d, hd, rfl⟩ := mem_exported_iff.mp hr
  have hroot := (mem_walk_iff ht).mp hs
  cases hD : t.child? s .declaration with
  | none =>
    rw [Visit.exportsAt, if_pos (show t.kind (t.visitOf s).node = _ from hk)] at hi
    simp only [visitOf, hD] at hi
    exact absurd hi List.not_mem_nil
  | some D =>
    rw [exportsAt_of_child? hk hD] at hi
    obtain ⟨hst, hDst, hne⟩ := export_stays hw hx h hn hroot hk hD
    obtain ⟨hi', hist⟩ := declaredNames_kept ht h hDst hne hi
    have hoff := ((stays_iff_mem ht h.cut hq).mp hst).2
    have hres : ∀ e, t.resolve? (t.outerNode s) (t.text i) = some e → e.identifier ∉ t.offcut gone := fun e he hoffe =>
      hoff (hc.2 trivial _ hmem (Option.some.inj (he.symm.trans hd) ▸ hoffe))
    refine mem_exported_iff.mpr ⟨s, ?_, i, ?_, d, ?_, rfl⟩
    · exact (mem_walk_iff (hw.cut h).consistent).mpr ((stays_iff ht h.cut (hst.lt_size ht)).mp hst)
    · rw [exportsAt_of_child? ((h.cut.kind_eq s (hst.lt_size ht)).trans hk)
        ((h.child?_of_not_site ht (by rw [hk]; rfl)).1.trans hD)]
      exact hi'
    · rw [h.cut.outerNode_stays ht hst, h.cut.text_eq i (hist.lt_size ht),
        resolve?_cut ht hw.shape.toFramed h hq (hc.1.mono redeclared_subset_named)
          (hst.of_below ht (outerNode_below ht hroot)) hres, hd]

/-- A node that opens no scope is in the scopes around its parent. -/
theorem scopeChain_of_opens (ht : t.Consistent) {c p : NodeId} (hp : t.parent c = some p)
    (hroot : t.Below t.root p) (ho : t.opens? c = none) : t.scopeChain c = t.scopeChain p := by
  have hne : c ≠ t.root := fun he => by
    rw [he, ht.root_parent] at hp
    cases hp
  have hno : t.isScope c = false := by simp [isScope, scopeOpened?, ho, hne]
  rw [scopeChain_child ht hp hroot, hno]
  rfl

/-- A name of a declarator's pattern makes the declarator a named node. -/
theorem named_of_patternNames (hw : WellShaped P t) {p i : NodeId} (hp : t.Below t.root p)
    (hi : i ∈ t.patternNames p .name) : (t.node p).named = true := by
  obtain ⟨c, hc, _⟩ := mem_patternNames hw.consistent hi
  by_contra hno
  have hnil := hw.shape.leaf p hp (.inr (by simpa using hno))
  have hmem := mem_children_of_child? hc
  rw [hnil] at hmem
  exact List.not_mem_nil hmem

section Declared

variable (hw : WellShaped True t) (hx : t.ExportsAtTop) {s D : NodeId} (hs : t.Below t.root s)
  (hk : t.kind s = .exportStatement) (hD : t.child? s .declaration = some D) {p : NodeId}
  (hkp : t.kind p = .variableDeclarator) (hp : t.parent p = some D)

include hw hs hk hD hkp hp

/-- An exported declaration with declarators is one of variables. -/
theorem kind_exported : t.kind D = .lexicalDeclaration ∨ t.kind D = .variableDeclaration := by
  have ht := hw.consistent
  have hroot : t.Below t.root p := .step hp (.step (parent_of_child? ht hD) hs)
  have hholds := (hw.shape.keyword p D hroot hkp hp).1
  have hsite : (t.kind D).isSite = true := by
    cases hkD : t.kind D <;> rw [hkD] at hholds <;> first | rfl | cases hholds
  rcases hw.exports trivial s D hs hk hD hsite with h | h | ⟨_, hnone⟩
  · exact .inl h
  · exact .inr h
  · exact absurd hkp (hnone _ ((ht.mem_children D _).mpr hp))

include hx

/-- The root is the only scope around an exported declarator. -/
theorem scopeChain_exported : t.scopeChain p = [t.root] := by
  have ht := hw.consistent
  have hDs := parent_of_child? ht hD
  have hopens : t.opens? D = none := by
    rcases kind_exported hw hs hk hD hkp hp with hkD | hkD <;>
      simp [opens?, hkD, Kind.isFunction, Kind.isClass, Kind.isBlock]
  rw [scopeChain_of_opens ht hp (.step hDs hs) (by simp [opens?, hkp, Kind.isFunction, Kind.isClass, Kind.isBlock]),
    scopeChain_of_opens ht hDs hs hopens,
    scopeChain_of_opens ht (hx s hs hk) .refl (by simp [opens?, hk, Kind.isFunction, Kind.isClass, Kind.isBlock]),
    scopeChain_root ht]

end Declared

/-- What an export statement declares by a declarator, it refers to. -/
theorem exported_of_declarator (hw : WellShaped True t) (hx : t.ExportsAtTop) {s D : NodeId}
    (hs : t.Below t.root s) (hk : t.kind s = .exportStatement) (hD : t.child? s .declaration = some D)
    {d : Declaration NodeId} (hd : d ∈ t.bindings) (hc : d.construct = .declarator)
    (hp : t.parent d.path = some D) : (s, d.identifier) ∈ t.exported := by
  have ht := hw.consistent
  obtain ⟨hkp, hdm⟩ := declarator_of_construct ht (mem_declarations_of_binding hd) hc
  have hroot := path_attached ht (mem_declarations_of_binding hd)
  have htarget : d.target = t.root := by
    have hmem : d.target ∈ t.scopeChain d.path := by
      refine (mem_scopeChain_iff ht hroot).mpr ⟨target_above ht hroot hdm, ?_⟩
      exact ((mem_scopeNodes_iff ht).mp (target_mem_scopeNodes ht hd)).2
    rw [scopeChain_exported hw hx hs hk hD hkp hp] at hmem
    exact List.mem_singleton.mp hmem
  have hname : d.identifier ∈ t.patternNames d.path .name := (mem_patternNames_iff hkp).mpr ⟨d, hdm, rfl⟩
  refine mem_exported_iff.mpr ⟨s, (mem_walk_iff ht).mpr hs, d.identifier, ?_, d, ?_, rfl⟩
  · rw [exportsAt_of_child? hk hD, declaredNames_eq, if_pos (kind_exported hw hs hk hD hkp hp)]
    refine List.mem_flatMap.mpr ⟨d.path, List.mem_filter.mpr ⟨(ht.mem_children D _).mpr hp,
      named_of_patternNames hw hroot hname⟩, ?_⟩
    rw [if_pos hkp]
    exact hname
  · have hfirst := (List.mem_filter.mp hd).2
    rw [decide_eq_true_eq, htarget] at hfirst
    rw [outerNode_child (hx s hs hk), scopeNode_root ht, resolve?_root ht, declared?, hfirst]

end Exports

namespace Residue

variable {t t' : Tree}

theorem old_of_kind (h : Residue t t') {s : NodeId} (hs : t'.Below t'.root s) (hk : t'.kind s ≠ .emptyStatement) :
    s < t.size :=
  (h.remains.old hs hk).1

theorem exportsAtTop (h : Residue t t') (hx : t.ExportsAtTop) : t'.ExportsAtTop := fun s hs hk => by
  have hlt := h.old_of_kind hs (by rw [hk]; decide)
  rw [h.remains.parent_eq s hlt hs, h.remains.root]
  exact hx s (h.remains.attached s hlt hs) ((h.remains.kind_eq s hlt) ▸ hk)

theorem sparesExports (h : Residue t t') (ht : t.Consistent) (hn : n < t.size) (hb : t'.Below t'.root n)
    (hs : t.SparesExports n) : t'.SparesExports n := by
  refine ⟨?_, fun hk s D hroot hks hD => ?_⟩
  · rw [h.remains.kind_eq n hn]
    exact hs.statement
  · have hlt := h.old_of_kind hroot (by rw [hks]; decide)
    rw [h.remains.kind_eq n hn] at hk
    rw [h.remains.kind_eq s hlt] at hks
    rw [h.child?_whole ht hlt hroot (.inl (by rw [hks]; rfl))] at hD
    rw [h.remains.parent_eq n hn hb]
    exact hs.declarator hk s D (h.remains.attached s hlt hroot) hks hD

end Residue
end Tree

namespace Clips

theorem residue (h : Clips P True w ns w') (hP : P) (hw : WellShaped True w.tree) (hl : w.tree.Local) :
    Residue w.tree w'.tree := by
  induction h with
  | nil => exact .refl hw hl
  | settle _ hp hq hc ih =>
    rw [tree_settle]
    exact ih.trans (.cut ih.shaped ih.inner hp hq (hc hP)) hw.consistent

/-- What is lost was below a node cut off, or is a comma. -/
theorem lost (h : Clips P True w ns w') (hP : P) (hw : WellShaped True w.tree) (hl : w.tree.Local)
    (hm : w.tree.Below w.tree.root m) (hgone : ¬ w'.tree.Below w'.tree.root m) :
    (∃ n ∈ ns, w.tree.Below n m) ∨ w.tree.kind m = .comma := by
  induction h with
  | nil => exact absurd hm hgone
  | @settle u t q n gone ns hpre hp hq hc ih =>
    by_cases hu : u.tree.Below u.tree.root m
    · have hres := hpre.residue hP hw hl
      have hcu := hres.shaped.consistent
      have hlt := hm.lt_size hw.consistent
      have hltu := lt_of_lt_of_le hlt hres.remains.size_le
      rw [tree_settle, hp.cut.below_root_iff hcu hltu] at hgone
      obtain ⟨g, hg, hb⟩ : ∃ g ∈ gone, u.tree.Below g m := by
        by_contra hno
        exact hgone ⟨hu, fun g hg hb => hno ⟨g, hg, hb⟩⟩
      rcases hp.gone_comma g hg with rfl | hk
      · exact .inl ⟨g, by simp, hres.remains.below hw.consistent hlt hu hb⟩
      · have hgr : u.tree.Below u.tree.root g := .step (hp.cut.parent_of_gone g hg) hq
        have hmg := hb.eq_of_leaf hcu (hres.shaped.shape.leaf g hgr (.inl (by rw [hk]; rfl)))
        rw [hmg, ← hres.remains.kind_eq g (hmg ▸ hlt)]
        exact .inr hk
    · exact (ih hu).imp_left (Exists.imp fun n hn => hn.imp_left (List.mem_append_left _))

theorem exported (h : Clips P True w ns w') (hP : P) (hw : WellShaped True w.tree) (hl : w.tree.Local)
    (hx : w.tree.ExportsAtTop) (hns : ∀ n ∈ ns, n < w.tree.size ∧ w.tree.SparesExports n) {r : NodeId × NodeId}
    (hr : r ∈ w.tree.exported) : r ∈ w'.tree.exported := by
  induction h with
  | nil => exact hr
  | @settle u t q n gone ns hpre hp hq hc ih =>
    have hres := hpre.residue hP hw hl
    obtain ⟨hlt, hspares⟩ := hns n (by simp)
    have hn := hres.sparesExports hw.consistent hlt (.step hp.cut.parent_mem hq) hspares
    rw [tree_settle]
    exact exported_kept hres.shaped (hres.exportsAtTop hx) hp hq (hc hP) hn
      (ih fun n hn => hns n (List.mem_append_left _ hn))

end Clips

/-! ## What a removal takes along -/

/-- The node is the last part of `g`. -/
structure Tree.LastPart (t : Tree) (g n : NodeId) : Prop where
  holds : (t.kind g).holdsParts = true
  mem : n ∈ t.parts g
  alone : ∀ c ∈ t.parts g, c = n

/-- Commas and the words `from` are tokens. -/
def Tree.PlainTokens (t : Tree) : Prop :=
  ∀ c, t.Below t.root c → t.kind c = .comma ∨ t.kind c = .fromWord → (t.node c).named = false

/-- The node `p` left the tree, and what it was the last part of may have left with it. -/
structure Tree.Loses (t t' : Tree) (p : NodeId) : Prop where
  residue : Residue t t'
  exported : ∀ r ∈ t.exported, r ∈ t'.exported
  parts : ∀ g, t'.Below t'.root g → g < t.size → (t.kind g).holdsParts = true → t.parts g ≠ [] →
    t'.parts g ≠ []
  lost : ∀ m, t.Solid m → t.Below t.root m → ¬ t'.Below t'.root m →
    ∃ g, (g = p ∨ t.LastPart g p) ∧ t.Below g m

namespace Drops

variable {β : BindingId} {b : Binding}

section Places

variable (hd : Drops id w b ns u) (h : Doomed True id w β b) (hroot : w.tree.Below w.tree.root b.path)

include h hroot

/-- The only declarator is the last part of its declaration. -/
theorem lastPart_of_sole {D : NodeId} (hc : b.construct = .declarator) (hp : w.tree.parent b.path = some D)
    (hsole : ∀ c ∈ w.tree.children D, w.tree.kind c = .variableDeclarator → c = b.path) :
    w.tree.LastPart D b.path := by
  have hk := h.placed hroot
  rw [Binding.Placed, hc] at hk
  have hholds := (h.tracked.tree.shape.keyword b.path D hroot hk hp).1
  refine ⟨by rw [Kind.holdsParts, hholds]; rfl, ?_, fun c hc => ?_⟩
  · exact (mem_parts_of_declaration hholds).mpr ⟨(h.tracked.tree.consistent.mem_children D _).mpr hp, hk⟩
  · obtain ⟨hc, hkc⟩ := (mem_parts_of_declaration hholds).mp hc
    exact hsole c hc hkc

/-- The default import of a clause that keeps no named part is its last part. -/
theorem lastPart_of_default (hu : UpToDate True id w) (htokens : w.tree.PlainTokens) {c : NodeId} {t : Tree}
    {gone : List NodeId} (hc : b.construct = .importDefault) (hk : w.tree.kind c = .importClause)
    (hd : Detached w.tree t c b.path gone) (hempty : t.namedChildren c = []) :
    w.tree.Below w.tree.root c ∧ w.tree.LastPart c b.path := by
  have ht := h.tracked.tree.consistent
  have hcr := hroot.root_of_below ht (.of_parent hd.parent_mem)
  obtain ⟨d, hd', hdesc, _⟩ := h.declaration hu hroot
  have hnamed : b.path ∈ w.tree.namedChildren c := hdesc.path ▸
    default_named ht (mem_declarations_of_binding hd') (hdesc.construct ▸ hc) (hdesc.path ▸ hd.parent_mem)
  refine ⟨hcr, by rw [hk]; rfl, by rw [parts_of_clause hk]; exact hnamed, fun x hx => ?_⟩
  rw [parts_of_clause hk] at hx
  rw [hd.namedChildren_cut ht] at hempty
  have hgone : x ∈ gone := by simpa using List.filter_eq_nil_iff.mp hempty x hx
  refine (hd.gone_comma x hgone).resolve_right fun hcomma => ?_
  have hplain := htokens x (.step (hd.parent_of_gone x hgone) hcr) (.inl hcomma)
  rw [(List.mem_filter.mp hx).2] at hplain
  cases hplain

include hd

/-- What is cut off: the construct, what it is the last part of, or a word. -/
theorem nodes (hu : UpToDate True id w) (htokens : w.tree.PlainTokens) : ∀ n ∈ ns, w.tree.Below w.tree.root n ∧
    (n = b.path ∨ w.tree.LastPart n b.path ∨ w.tree.kind n = .fromWord) := by
  have ht := h.tracked.tree.consistent
  have construct : ∀ n ∈ [b.path], w.tree.Below w.tree.root n ∧
      (n = b.path ∨ w.tree.LastPart n b.path ∨ w.tree.kind n = .fromWord) := fun n hn => by
    obtain rfl := List.mem_singleton.mp hn
    exact ⟨hroot, .inl rfl⟩
  cases hd with
  | function => exact construct
  | declarator => exact construct
  | specifier => exact construct
  | default => exact construct
  | @declaration q D t hc hfree hp hsole hcut =>
    intro n hn
    obtain rfl := List.mem_singleton.mp hn
    exact ⟨hroot.root_of_below ht (.of_parent hp), .inr (.inl (lastPart_of_sole h hroot hc hp hsole))⟩
  | @clause c s t t₂ gone gone₂ hc hk hks hd hempty hd₂ =>
    intro n hn
    rcases List.mem_cons.mp hn with rfl | hn
    · exact construct _ (List.mem_singleton_self _)
    · obtain rfl := List.mem_singleton.mp hn
      exact (lastPart_of_default h hroot hu htokens hc hk hd hempty).imp_right fun hl => .inr (.inl hl)
  | @word c s word t t₂ t₃ gone gone₂ gone₃ hc hk hks hd hempty hd₂ hkw hd₃ =>
    intro n hn
    rcases List.mem_cons.mp hn with rfl | hn
    · exact construct _ (List.mem_singleton_self _)
    rcases List.mem_cons.mp hn with rfl | hn
    · exact (lastPart_of_default h hroot hu htokens hc hk hd hempty).imp_right fun hl => .inr (.inl hl)
    · obtain rfl := List.mem_singleton.mp hn
      have hr := (hd.remains ht).trans (hd₂.remains (hd.consistent ht))
      have hlt : n < w.tree.size := by
        have := lt_size_of_parent hd₃.parent_mem
        rwa [hd₂.size_eq, hd.size_eq] at this
      have hs : t₂.Below t₂.root s := by
        obtain ⟨_, _, hs, hks'⟩ := clause_left h hroot hk hks hd hd₂
        exact (stays_iff (hd.consistent ht) hd₂.toCut (hs.lt_size (hd.consistent ht))).mp
          (hd₂.site_stays (hd.consistent ht) hs)
      exact ⟨hr.attached n hlt (.step hd₃.parent_mem hs), .inr (.inr (hr.kind_eq n hlt ▸ hkw))⟩

omit hd

/-- A declaration from which another declarator than the last one went keeps one. -/
theorem declarator_left {D : NodeId} {t : Tree} {gone : List NodeId} (hc : b.construct = .declarator)
    (hsole : ¬ ∀ c ∈ w.tree.children D, w.tree.kind c = .variableDeclarator → c = b.path)
    (hd : Detached w.tree t D b.path gone) : t.parts D ≠ [] := by
  have ht := h.tracked.tree.consistent
  have hDr := hroot.root_of_below ht (.of_parent hd.parent_mem)
  obtain ⟨c, hc', hkc, hne⟩ : ∃ c ∈ w.tree.children D, w.tree.kind c = .variableDeclarator ∧ c ≠ b.path := by
    by_contra hno
    exact hsole fun c hc' hkc => by_contra fun hne => hno ⟨c, hc', hkc, hne⟩
  have hkb := h.placed hroot
  rw [Binding.Placed, hc] at hkb
  have hholds := (h.tracked.tree.shape.keyword b.path D hroot hkb hd.parent_mem).1
  have hcg : c ∉ gone := fun hcg => by
    rcases hd.gone_comma c hcg with rfl | hcomma
    · exact hne rfl
    · rw [hkc] at hcomma
      cases hcomma
  have hclt := lt_size_of_parent ((ht.mem_children D c).mp hc')
  exact List.ne_nil_of_mem ((mem_parts_of_declaration (by rw [hd.kind_eq D (hDr.lt_size ht)]; exact hholds)).mpr
    ⟨(hd.mem_children_iff ht hclt).mpr ⟨hc', hcg⟩, (hd.kind_eq c hclt).trans hkc⟩)

end Places

section Parts

variable {t t₂ : Tree} {g q : NodeId} {gone gone₂ : List NodeId}

/-- What is cut out of an import statement or out of braces is no part of another node. -/
theorem parts_of_braces (ht : t.Consistent) (hlt : g < t.size) (hg : (t.kind g).holdsParts = true)
    (hkq : t.kind q = .importStatement ∨ t.kind q = .namedImports) (hd : Detached t t₂ q n gone) :
    t₂.parts g = t.parts g := by
  refine hd.parts_of_ne ht hlt ?_
  rintro rfl
  rcases hkq with hkq | hkq <;> rw [hkq] at hg <;> cases hg

/-- A clause that left its statement took its own parts only. -/
theorem parts_of_clause_out {c s p : NodeId} (hc : w.tree.Consistent) (hlt : g < w.tree.size)
    (hg : (w.tree.kind g).holdsParts = true) (hks : w.tree.kind s = .importStatement)
    (hd : Detached w.tree t c p gone) (hd₂ : Detached t t₂ s c gone₂) (hb₂ : t₂.Below t₂.root g) :
    t₂.parts g = w.tree.parts g := by
  have hct := hd.consistent hc
  have hlt' : g < t.size := hd.size_eq ▸ hlt
  have hne : g ≠ c := by
    rintro rfl
    exact hd₂.not_below_gone hct hlt' hb₂ hd₂.node_mem .refl
  have hs : s < t.size := hct.parent_lt hd₂.parent_mem
  rw [parts_of_braces hct hlt' (hd.kind_eq g hlt ▸ hg) (.inl ((hd.kind_eq s (hd.size_eq ▸ hs)).trans hks)) hd₂,
    hd.parts_of_ne hc hlt hne]

end Parts

section Places

variable (hd : Drops id w b ns u) (h : Doomed True id w β b) (hroot : w.tree.Below w.tree.root b.path)

include hd h hroot

/-- What stays does not lose its last part. -/
theorem parts {g : NodeId} (hg : w.tree.Below w.tree.root g) (hk : (w.tree.kind g).holdsParts = true)
    (hb : u.tree.Below u.tree.root g) (hsome : w.tree.parts g ≠ []) : u.tree.parts g ≠ [] := by
  have ht := h.tracked.tree.consistent
  have hlt := hg.lt_size ht
  cases hd with
  | function _ hcut =>
    rw [tree_settle, hcut.parts_eq ht hlt hk]
    exact hsome
  | declaration _ _ _ _ hcut =>
    rw [tree_settle, hcut.parts_eq ht hlt hk]
    exact hsome
  | @declarator D t gone hc hfree hsole hd =>
    rw [tree_settle]
    by_cases hgD : g = D
    · subst hgD
      exact declarator_left h hroot hc hsole hd
    · rw [hd.parts_of_ne ht hlt hgD]
      exact hsome
  | specifier _ hkq hd =>
    rw [tree_settle, parts_of_braces ht hlt hk (.inr hkq) hd]
    exact hsome
  | @default c t gone _ hkc hd hleft =>
    rw [tree_settle]
    by_cases hgc : g = c
    · subst hgc
      rw [parts_of_clause ((hd.kind_eq g hlt).trans hkc)]
      exact hleft
    · rw [hd.parts_of_ne ht hlt hgc]
      exact hsome
  | clause _ _ hks hd _ hd₂ =>
    rw [tree_settle] at hb ⊢
    rw [parts_of_clause_out ht hlt hk hks hd hd₂ hb]
    exact hsome
  | @word c s word t t₂ t₃ gone gone₂ gone₃ _ _ hks hd _ hd₂ _ hd₃ =>
    rw [tree_settle] at hb ⊢
    have hct := hd.consistent ht
    have hct₂ := hd₂.consistent hct
    have hr := (hd.remains ht).trans (hd₂.remains hct)
    have hlt₂ := lt_of_lt_of_le hlt hr.size_le
    have hb₂ := (hd₃.remains hct₂).attached g hlt₂ hb
    have hs : s < w.tree.size := hd.size_eq ▸ hct.parent_lt hd₂.parent_mem
    rw [parts_of_braces hct₂ hlt₂ (hr.kind_eq g hlt ▸ hk) (.inl ((hr.kind_eq s hs).trans hks)) hd₃,
      parts_of_clause_out ht hlt hk hks hd hd₂ hb₂]
    exact hsome

/-- The construct is no export statement, and no declarator of one. -/
theorem spares (hx : w.tree.ExportsAtTop) (hu : UpToDate True id w) : w.tree.SparesExports b.path := by
  have ht := h.tracked.tree.consistent
  obtain ⟨d, hd', hdesc, hunused⟩ := h.declaration hu hroot
  refine ⟨fun hk => ?_, fun hk s D hs hks hD hp => ?_⟩
  · have := kind_path ht (mem_declarations_of_binding hd')
    rw [← hdesc.path, hk] at this
    rcases this with h | h | h | h | h <;> cases h
  · have hc : b.construct = .declarator := by
      have hplaced := h.placed hroot
      rw [Binding.Placed, hk] at hplaced
      cases hd with
      | declaration hc | declarator hc => exact hc
      | function hc =>
        rw [hc] at hplaced
        rcases hplaced with h | h <;> cases h
      | specifier hc | default hc | clause hc | word hc =>
        rw [hc] at hplaced
        exact absurd hplaced.1 (by decide)
    have hexported := exported_of_declarator h.tracked.tree hx hs hks hD hd' (hdesc.construct ▸ hc) (hdesc.path ▸ hp)
    exact hunused.2 trivial _ hexported rfl

theorem loses (hl : w.tree.Local) (hu : UpToDate True id w) (hx : w.tree.ExportsAtTop)
    (htokens : w.tree.PlainTokens) : w.tree.Loses u.tree b.path := by
  have hw := h.tracked.tree
  have hclips := hd.clips h hroot
  have hnodes := hd.nodes h hroot hu htokens
  refine ⟨hclips.residue ⟨hu, .inl hl⟩ hw hl, fun r => hclips.exported ⟨hu, .inl hl⟩ hw hl hx fun n hn => ?_,
    fun g hb hlt hk => hd.parts h hroot ?_ hk hb, fun m hsolid hm hgone => ?_⟩
  · obtain ⟨hnr, hn⟩ := hnodes n hn
    refine ⟨hnr.lt_size hw.consistent, ?_⟩
    rcases hn with rfl | hlast | hk
    · exact hd.spares h hroot hx hu
    · have hk := hlast.holds
      refine ⟨fun he => ?_, fun he => ?_⟩ <;> rw [he] at hk <;> cases hk
    · exact ⟨by rw [hk]; decide, fun he => by rw [hk] at he; cases he⟩
  · exact (hclips.residue ⟨hu, .inl hl⟩ hw hl).remains.attached g hlt hb
  · rcases hclips.lost ⟨hu, .inl hl⟩ hw hl hm hgone with ⟨n, hn, hnm⟩ | hcomma
    · obtain ⟨hnr, hn | hn | hk⟩ := hnodes n hn
      · exact ⟨n, .inl hn, hnm⟩
      · exact ⟨n, .inr hn, hnm⟩
      · have hleaf := hw.shape.leaf n hnr (.inl (by rw [hk]; rfl))
        rw [← hnm.eq_of_leaf hw.consistent hleaf] at hk
        exact absurd hk hsolid.2.2
    · exact absurd hcomma hsolid.2.1

end Places
end Drops

/-- The statement of an assignment leaves by itself. -/
theorem loses_of_assignment (hw : WellShaped True w.tree) (hl : w.tree.Local) (hx : w.tree.ExportsAtTop)
    {name : String} (ha : w.tree.Assigns n name) {s q : NodeId} (hs : w.tree.parent n = some s)
    (hroot : w.tree.Below w.tree.root s) {t : Tree} (hcut : StatementCut w.tree t q s) : w.tree.Loses t s := by
  have ht := hw.consistent
  have hclips : Clips True True w [s] (w.settle t s) := clips_assignment hw ha hs hroot hcut
  have hres := hclips.residue trivial hw hl
  have hexported := fun r => hclips.exported trivial hw hl hx (r := r) fun n hn => by
    obtain rfl := List.mem_singleton.mp hn
    obtain ⟨s', hs', hk⟩ := ha.statement
    obtain rfl := Option.some.inj (hs.symm.trans hs')
    exact ⟨hroot.lt_size ht, by rw [hk]; decide, fun he => by rw [hk] at he; cases he⟩
  have hlost := fun m => hclips.lost trivial hw hl (m := m)
  rw [tree_settle] at hres hexported hlost
  refine ⟨hres, hexported, fun g _ hlt hk hsome => ?_, fun m hsolid hm hgone => ?_⟩
  · rw [hcut.parts_eq ht hlt hk]
    exact hsome
  · obtain ⟨n, hn, hnm⟩ := (hlost m hm hgone).resolve_right hsolid.2.1
    exact ⟨n, .inl (List.mem_singleton.mp hn), hnm⟩

end DeadCode
