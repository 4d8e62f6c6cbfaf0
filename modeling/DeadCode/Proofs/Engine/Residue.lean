import DeadCode.Proofs.Engine.Stable
import DeadCode.Proofs.Names.Meaning

/-!
What is left after any number of clean cuts. `Residue t t'` says it of the names of `t`: what `t'` declares, binds and
refers to is what `t` does, as far as it is attached in `t'`. So two trees that are left of one tree can be compared
by what is attached in each (`Within`): what is unused, dangling or unspelled in one is so in a smaller one.
-/

namespace DeadCode

/-- Kinds of nodes that go when their last part goes, or in which the last part cannot go by itself. -/
def Kind.holdsParts (k : Kind) : Bool := k.holdsDeclarators || k = .importClause

theorem Kind.not_listed_of_holdsParts {k : Kind} (h : k.holdsParts = true) :
    k.listsStatements = false ∧ ∀ f, k.hasSlot f = false := by
  rcases Bool.or_eq_true_iff.mp h with h | h
  · exact (Tree.Kind.not_listed_of_holdsDeclarators h).imp_right And.left
  · rw [of_decide_eq_true h]
    exact ⟨rfl, fun _ => rfl⟩

/-- A test that commas and the words `from` fail tells other kinds from them. -/
theorem Kind.solid_of_test {p : Kind → Bool} {k : Kind} (hk : p k = true) (hcomma : p .comma = false)
    (hfrom : p .fromWord = false) : k ≠ .comma ∧ k ≠ .fromWord := by
  constructor
  · rintro rfl
    rw [hcomma] at hk
    cases hk
  · rintro rfl
    rw [hfrom] at hk
    cases hk

namespace Tree

/-- Nothing is cut from the node. -/
def Whole (t : Tree) (m : NodeId) : Prop :=
  (t.kind m).isSite = false ∨
    (t.kind m).holdsDeclarators = true ∧ ∀ c ∈ t.children m, t.kind c ≠ .variableDeclarator

/-- The declarators of a declaration, the named parts of an import clause. -/
def parts (t : Tree) (g : NodeId) : List NodeId :=
  (t.children g).filter fun c =>
    if t.kind g = .importClause then (t.node c).named else t.kind c = .variableDeclarator

theorem parts_of_clause {t : Tree} {g : NodeId} (hk : t.kind g = .importClause) :
    t.parts g = t.namedChildren g := by
  simp [parts, namedChildren, hk]

theorem mem_parts_of_declaration {t : Tree} {g c : NodeId} (hk : (t.kind g).holdsDeclarators = true) :
    c ∈ t.parts g ↔ c ∈ t.children g ∧ t.kind c = .variableDeclarator := by
  have hne : t.kind g ≠ .importClause := fun he => by
    rw [he] at hk
    cases hk
  simp [parts, hne]

theorem Cut.parts_of_ne {t t' : Tree} {q n g : NodeId} {gone : List NodeId} (ht : t.Consistent)
    (h : Cut t t' q n gone) (hg : g < t.size) (hne : g ≠ q) : t'.parts g = t.parts g := by
  rw [parts, parts, h.children_other g hne]
  refine List.filter_congr fun c hc => ?_
  have hlt := lt_size_of_parent ((ht.mem_children g c).mp hc)
  rw [h.kind_eq g hg, h.named_eq c hlt, h.kind_eq c hlt]

/-- No statement is cut from what holds parts. -/
theorem StatementCut.parts_eq {t t' : Tree} {q n g : NodeId} (ht : t.Consistent) (h : StatementCut t t' q n)
    (hg : g < t.size) (hk : (t.kind g).holdsParts = true) : t'.parts g = t.parts g := by
  obtain ⟨hlists, hslot⟩ := Kind.not_listed_of_holdsParts hk
  obtain ⟨gone, hcut⟩ := h.cut
  refine hcut.parts_of_ne ht hg ?_
  rintro rfl
  rcases h with ⟨hl, _⟩ | ⟨hl, _⟩
  · rw [hlists] at hl
    cases hl
  · rw [hslot] at hl
    cases hl

structure Residue (t t' : Tree) : Prop where
  shaped : WellShaped True t'
  inner : t'.Local
  remains : Remains t t'
  tokens : ∀ m < t.size, (t'.node m).named = (t.node m).named
  whole : ∀ m < t.size, t'.Below t'.root m → t.Whole m → t'.children m = t.children m
  slots : ∀ c p, t.size ≤ c → t'.Below t'.root c → t'.parent c = some p → ∃ f, (t'.kind p).hasSlot f = true
  scopes : ∀ m < t.size, t'.Below t'.root m → t'.scopeChain m = t.scopeChain m
  declarations : ∀ d, d ∈ t'.declarations ↔ d ∈ t.declarations ∧ t'.Below t'.root d.path
  bindings : ∀ d, d ∈ t'.bindings ↔ d ∈ t.bindings ∧ t'.Below t'.root d.path
  named : ∀ r, r ∈ t'.named ↔ r ∈ t.named ∧ t'.Below t'.root r.1
  exported : ∀ r ∈ t'.exported, r ∈ t.exported

variable {t t' t'' : Tree} {q n m : NodeId} {gone : List NodeId} {d : Declaration NodeId} {name : String}

theorem Pruning.ne_of_whole (ht : t.Consistent) (h : Pruning t t' q n gone) (hm : t.Whole m) : m ≠ q := by
  rcases hm with hm | ⟨hholds, hnone⟩
  · exact h.ne_of_not_site hm
  · rintro rfl
    obtain ⟨hkn, hcut⟩ := h.declarator_of_holds hholds
    exact hnone n ((ht.mem_children m n).mpr hcut.parent_mem) hkn

/-- A fresh node stands in a slot. -/
theorem Pruning.slot_of_fresh (h : Pruning t t' q n gone) {c p : NodeId} (hc : t.size ≤ c)
    (hp : t'.parent c = some p) : ∃ f, (t.kind p).hasSlot f = true := by
  have hlt := lt_size_of_parent hp
  have none : t'.size = t.size → False := fun he => absurd hlt (not_lt.mpr (he ▸ hc))
  rcases h with ⟨_, hd⟩ | ⟨hslot, hr, rfl⟩ | ⟨_, _, hd⟩ | ⟨_, hd⟩
  · exact (none hd.size_eq).elim
  · rw [hr.fresh_parent c hc hlt] at hp
    exact Option.some.inj hp ▸ ⟨_, hslot⟩
  · exact (none hd.size_eq).elim
  · exact (none hd.size_eq).elim

namespace Residue

theorem refl (hw : WellShaped True t) (hl : t.Local) : Residue t t where
  shaped := hw
  inner := hl
  remains := .refl hw.consistent
  tokens _ _ := rfl
  whole _ _ _ _ := rfl
  slots _ _ hge hb _ := absurd (hb.lt_size hw.consistent) (not_lt.mpr hge)
  scopes _ _ _ := rfl
  declarations _ := ⟨fun h => ⟨h, path_attached hw.consistent h⟩, And.left⟩
  bindings _ := ⟨fun h => ⟨h, path_attached hw.consistent (mem_declarations_of_binding h)⟩, And.left⟩
  named _ := ⟨fun h => ⟨h, named_attached hw.consistent h⟩, And.left⟩
  exported _ h := h

/-- A clean cut. -/
theorem cut (hw : WellShaped True t) (hl : t.Local) (h : Pruning t t' q n gone) (hq : t.Below t.root q)
    (hc : t.Clean True (t.offcut gone)) : Residue t t' := by
  have ht := hw.consistent
  have hred : Closed t.redeclared (t.offcut gone) := hc.1.mono redeclared_subset_named
  have hw' := hw.cut h
  -- what stays is what is attached afterwards
  have stays : ∀ {m}, t.Below t.root m → (m ∉ t.offcut gone ↔ t'.Below t'.root m) := fun {m} hm => by
    rw [← stays_iff ht h.cut (hm.lt_size ht), stays_iff_mem ht h.cut hq, mem_walk_iff ht]
    exact ⟨fun h => ⟨hm, h⟩, And.right⟩
  have declared : ∀ {d}, d ∈ t.declarations →
      (d.identifier ∉ t.offcut gone ↔ t'.Below t'.root d.path) := fun {d} hd => by
    refine ⟨fun hoff => ?_, fun hp => ?_⟩
    · refine path_attached hw'.consistent ?_
      rw [declarations_cut ht hw.shape.toFramed h hq]
      exact List.mem_filter.mpr ⟨hd, by simpa using hoff⟩
    · exact path_stays ht hw.shape.toFramed h hq hd ((stays_iff ht h.cut ((path_attached ht hd).lt_size ht)).mpr hp)
  refine ⟨hw', local_cut ht hw.shape.toFramed h hq hred hl, h.cut.remains ht, h.cut.named_eq, fun m _ _ hm => ?_,
    fun c p hge _ hp => ?_, fun m hm hb => ?_, fun d => ?_, fun d => ?_, fun r => ?_, fun r hr => ?_⟩
  · exact h.cut.children_other m (h.ne_of_whole ht hm)
  · obtain ⟨f, hf⟩ := h.slot_of_fresh hge hp
    refine ⟨f, ?_⟩
    rw [h.cut.kind_eq p]
    · exact hf
    · by_contra hge'
      have hnil := h.cut.fresh_leaf ht (not_lt.mp hge')
      have hmem := (hw'.consistent.mem_children p c).mpr hp
      rw [hnil] at hmem
      exact List.not_mem_nil hmem
  · exact h.cut.scopeChain_stays ht ((stays_iff ht h.cut hm).mpr hb)
  · rw [declarations_cut ht hw.shape.toFramed h hq, List.mem_filter, decide_eq_true_eq]
    exact and_congr_right declared
  · rw [bindings_cut ht hw.shape.toFramed h hq hred, List.mem_filter, decide_eq_true_eq]
    exact and_congr_right fun hd => declared (mem_declarations_of_binding hd)
  · rw [named_cut ht hw.shape.toFramed h hq hc.1, List.mem_filter, decide_eq_true_eq]
    exact and_congr_right fun hr => stays (named_attached ht hr)
  · exact (exported_cut ht hw.shape.toFramed h hq (hw.exports trivial) hred (hc.2 trivial) hr).1

/-- Where there is no slot, no node is fresh. -/
theorem old_child (h : Residue t t') {g c : NodeId} (hg : g < t.size) (hb : t'.Below t'.root g)
    (hk : ∀ f, (t.kind g).hasSlot f = false) (hc : t'.parent c = some g) : c < t.size ∧ t'.Below t'.root c := by
  refine ⟨?_, .step hc hb⟩
  by_contra hge
  obtain ⟨f, hf⟩ := h.slots c g (not_lt.mp hge) (.step hc hb) hc
  rw [h.remains.kind_eq g hg, hk] at hf
  cases hf

theorem whole_left (h : Residue t t') (hm : m < t.size) (hb : t'.Below t'.root m) (hw : t.Whole m) :
    t'.Whole m := by
  have hch := h.whole m hm hb hw
  rw [Whole, hch, h.remains.kind_eq m hm]
  refine hw.imp_right fun hnot => ?_
  obtain ⟨hh, hnone⟩ := hnot
  refine ⟨hh, fun c hc => ?_⟩
  have hp := (h.shaped.consistent.mem_children m c).mp (hch ▸ hc)
  rw [h.remains.kind_eq c (h.old_child hm hb (Kind.not_listed_of_holdsDeclarators hh).2.1 hp).1]
  exact hnone c hc

theorem trans (h : Residue t t') (h' : Residue t' t'') (ht : t.Consistent) : Residue t t'' := by
  have hr := h.remains.trans h'.remains
  have old : ∀ {m}, m < t.size → m < t'.size := fun hm => lt_of_lt_of_le hm h.remains.size_le
  have was : ∀ {m}, m < t.size → t''.Below t''.root m → t'.Below t'.root m := fun hm hb =>
    h'.remains.attached _ (old hm) hb
  refine ⟨h'.shaped, h'.inner, hr, fun m hm => (h'.tokens m (old hm)).trans (h.tokens m hm), fun m hm hb hw => ?_,
    fun c p hge hb hp => ?_, fun m hm hb => ?_, fun d => ?_, fun d => ?_, fun r => ?_,
    fun r hr => h.exported r (h'.exported r hr)⟩
  · exact (h'.whole m (old hm) hb (h.whole_left hm (was hm hb) hw)).trans (h.whole m hm (was hm hb) hw)
  · rcases lt_or_ge c t'.size with hlt | hge'
    · have hp' : t'.parent c = some p := (h'.remains.parent_eq c hlt hb) ▸ hp
      rw [h'.remains.kind_eq p (h.shaped.consistent.parent_lt hp')]
      exact h.slots c p hge (h'.remains.attached c hlt hb) hp'
    · exact h'.slots c p hge' hb hp
  · exact (h'.scopes m (old hm) hb).trans (h.scopes m hm (was hm hb))
  · rw [h'.declarations, h.declarations, and_assoc]
    exact and_congr_right fun hd => ⟨And.right, fun hb => ⟨was ((path_attached ht hd).lt_size ht) hb, hb⟩⟩
  · rw [h'.bindings, h.bindings, and_assoc]
    exact and_congr_right fun hd => ⟨And.right, fun hb =>
      ⟨was ((path_attached ht (mem_declarations_of_binding hd)).lt_size ht) hb, hb⟩⟩
  · rw [h'.named, h.named, and_assoc]
    exact and_congr_right fun hr => ⟨And.right, fun hb => ⟨was ((named_attached ht hr).lt_size ht) hb, hb⟩⟩

/-! ## One node -/

theorem mem_parts_iff (h : Residue t t') (ht : t.Consistent) {g c : NodeId} (hg : g < t.size)
    (hb : t'.Below t'.root g) (hk : (t.kind g).holdsParts = true) :
    c ∈ t'.parts g ↔ c ∈ t.parts g ∧ t'.Below t'.root c := by
  have ht' := h.shaped.consistent
  have same : ∀ {c}, c < t.size →
      ((if t'.kind g = .importClause then (t'.node c).named else decide (t'.kind c = .variableDeclarator)) =
        if t.kind g = .importClause then (t.node c).named else decide (t.kind c = .variableDeclarator)) := fun hc => by
    rw [h.remains.kind_eq g hg, h.tokens _ hc, h.remains.kind_eq _ hc]
  rw [parts, parts, List.mem_filter, List.mem_filter, ht'.mem_children, ht.mem_children]
  constructor
  · rintro ⟨hp, hc⟩
    obtain ⟨hlt, hroot⟩ := h.old_child hg hb (Kind.not_listed_of_holdsParts hk).2 hp
    exact ⟨⟨(h.remains.parent_eq c hlt hroot) ▸ hp, same hlt ▸ hc⟩, hroot⟩
  · rintro ⟨⟨hp, hc⟩, hroot⟩
    have hlt := lt_size_of_parent hp
    exact ⟨(h.remains.parent_eq c hlt hroot).trans hp, (same hlt).symm ▸ hc⟩

theorem stuck_iff (h : Residue t t') (ht : t.Consistent) (hm : m < t.size) (hb : t'.Below t'.root m) :
    t'.Stuck m ↔ t.Stuck m := by
  rw [Stuck, Stuck, h.remains.parent_eq m hm hb, h.remains.field_eq m hm]
  refine exists_congr fun q => and_congr_right fun hq => ?_
  rw [h.remains.kind_eq q (ht.parent_lt hq)]

theorem child?_whole (h : Residue t t') (ht : t.Consistent) (hm : m < t.size) (hb : t'.Below t'.root m)
    (hw : t.Whole m) (f : Field) : t'.child? m f = t.child? m f := by
  rw [child?, child?, h.whole m hm hb hw]
  refine Lists.find?_congr fun c hc => ?_
  rw [h.remains.field_eq c (lt_size_of_parent ((ht.mem_children m c).mp hc))]

/-- An assignment that is left is the assignment it was. -/
theorem assigns_iff (h : Residue t t') (ht : t.Consistent) (hm : m < t.size) (hb : t'.Below t'.root m) :
    t'.Assigns m name ↔ t.Assigns m name := by
  have hr := h.remains
  by_cases hk : t.kind m = .assignmentExpression
  · have hw : t.Whole m := .inl (by rw [hk]; rfl)
    have old : ∀ {c}, c ∈ t.children m → c < t.size := fun hc => lt_size_of_parent ((ht.mem_children m _).mp hc)
    have hfind : ((t'.children m).find? fun c => !(t'.node c).named) =
        (t.children m).find? fun c => !(t.node c).named := by
      rw [h.whole m hm hb hw]
      exact Lists.find?_congr fun c hc => by rw [h.tokens c (old hc)]
    constructor
    · rintro ⟨_, ⟨s, hs, hks⟩, ⟨o, ho, hto⟩, ⟨l, hl, hkl, htl⟩, ⟨r, hr', hkr⟩⟩
      rw [hr.parent_eq m hm hb] at hs
      rw [hfind] at ho
      rw [h.child?_whole ht hm hb hw] at hl hr'
      rw [hr.kind_eq s (ht.parent_lt hs)] at hks
      rw [hr.text_eq o (old (List.mem_of_find?_eq_some ho))] at hto
      rw [hr.kind_eq l (old (mem_children_of_child? hl))] at hkl
      rw [hr.text_eq l (old (mem_children_of_child? hl))] at htl
      rw [hr.kind_eq r (old (mem_children_of_child? hr'))] at hkr
      exact ⟨hk, ⟨s, hs, hks⟩, ⟨o, ho, hto⟩, ⟨l, hl, hkl, htl⟩, ⟨r, hr', hkr⟩⟩
    · rintro ⟨_, ⟨s, hs, hks⟩, ⟨o, ho, hto⟩, ⟨l, hl, hkl, htl⟩, ⟨r, hr', hkr⟩⟩
      refine ⟨(hr.kind_eq m hm).trans hk, ⟨s, (hr.parent_eq m hm hb).trans hs, ?_⟩, ⟨o, hfind.trans ho, ?_⟩,
        ⟨l, (h.child?_whole ht hm hb hw _).trans hl, ?_, ?_⟩, ⟨r, (h.child?_whole ht hm hb hw _).trans hr', ?_⟩⟩
      · rw [hr.kind_eq s (ht.parent_lt hs), hks]
      · rw [hr.text_eq o (old (List.mem_of_find?_eq_some ho)), hto]
      · rw [hr.kind_eq l (old (mem_children_of_child? hl)), hkl]
      · rw [hr.text_eq l (old (mem_children_of_child? hl)), htl]
      · rw [hr.kind_eq r (old (mem_children_of_child? hr')), hkr]
  · exact ⟨fun ha => absurd ((hr.kind_eq m hm).symm.trans ha.kind) hk, fun ha => absurd ha.kind hk⟩

/-- An assignment does not leave its statement. -/
theorem assignment_left (h : Residue t t') (ht : t.Consistent) {s : NodeId} (hs : s < t.size)
    (hk : t.kind s = .expressionStatement) (hb : t'.Below t'.root s) (hp : t.parent m = some s) :
    t'.Below t'.root m := by
  have hmem := (ht.mem_children s m).mpr hp
  rw [← h.whole s hs hb (.inl (by rw [hk]; rfl))] at hmem
  exact .step ((h.shaped.consistent.mem_children s m).mp hmem) hb

end Residue

/-! ## Two residues of one tree -/

/-- A node that does not leave with a neighbour: no comma, no word `from`. -/
def Solid (t : Tree) (m : NodeId) : Prop := m < t.size ∧ t.kind m ≠ .comma ∧ t.kind m ≠ .fromWord

/-- What is left of `t` in `b` is left in `a`, commas and the words `from` apart. -/
def Within (t b a : Tree) : Prop := ∀ m, t.Solid m → b.Below b.root m → a.Below a.root m

theorem kind_path (ht : t.Consistent) (hd : d ∈ t.declarations) : (t.kind d.path).declares = true ∨
    t.kind d.path = .importSpecifier ∨ t.kind d.path = .identifier ∨ t.kind d.path = .namespaceImport ∨
      t.kind d.path = .importRequireClause := by
  obtain ⟨m, _, hm⟩ := mem_declarations_iff.mp hd
  rcases Visit.path_of_mem ht hm with ⟨_, hp⟩ | ⟨hk, _⟩
  · exact .inl (hp ▸ Visit.declares_of_mem hm)
  · exact .inr (Visit.path_of_import ht hk hm)

theorem solid_path (ht : t.Consistent) (hd : d ∈ t.declarations) : t.Solid d.path := by
  refine ⟨(path_attached ht hd).lt_size ht, ?_⟩
  rcases kind_path ht hd with hk | hk | hk | hk | hk
  · exact Kind.solid_of_test hk rfl rfl
  all_goals rw [hk]; decide

/-- A name stands for nothing if no scope around it binds it. -/
theorem resolve?_eq_none_iff {s : NodeId} : t.resolve? s name = none ↔
    ∀ d ∈ t.bindings, d.target ∈ t.scopeChain s → t.text d.identifier ≠ name := by
  have hfirst : ∀ a, t.declared? a name = t.firstOf? t.bindings a name := fun a =>
    (firstOf?_introducing t t.declarations a name).symm
  simp only [resolve?, List.findSome?_eq_none_iff, hfirst, firstOf?, List.find?_eq_none, decide_eq_true_eq, not_and]
  exact ⟨fun h d hd ha hn => h d.target ha d hd rfl hn, fun h a ha d hd hda hn => h d hd (hda ▸ ha) hn⟩

section Within

variable {a b : Tree} (ht : t.Consistent) (ha : Residue t a) (hb : Residue t b) (hw : t.Within b a)

include ht ha hb hw

theorem Within.bindings (hd : d ∈ b.bindings) : d ∈ a.bindings := by
  obtain ⟨hd, hp⟩ := (hb.bindings d).mp hd
  exact (ha.bindings d).mpr ⟨hd, hw _ (solid_path ht (mem_declarations_of_binding hd)) hp⟩

theorem Within.named {r : NodeId × NodeId} (hr : r ∈ b.named) : r ∈ a.named := by
  obtain ⟨hr', hroot⟩ := (hb.named r).mp hr
  refine (ha.named r).mpr ⟨hr', ?_⟩
  rcases List.mem_append.mp hr with hr | hr
  · -- a second declaration is attached as long as its construct is
    obtain ⟨e, he, _, _, _, rfl⟩ := mem_redeclared_iff.mp hr
    obtain ⟨he, hp⟩ := (hb.declarations e).mp he
    have hea := (ha.declarations e).mpr ⟨he, hw _ (solid_path ht he) hp⟩
    exact declared_attached ha.shaped.consistent hea
  · obtain ⟨n, _, huse, _, _, rfl⟩ := mem_used_iff.mp hr
    have huse := (isUse_iff.mp huse).1
    have hlt := (named_attached ht hr').lt_size ht
    rw [hb.remains.kind_eq n hlt] at huse
    exact hw n ⟨hlt, Kind.solid_of_test huse rfl rfl⟩ hroot

theorem Within.unused (he : ∀ r ∈ b.exported, r ∈ a.exported) (hd : a.Unused True d) : b.Unused True d :=
  ⟨fun r hr => hd.1 r (hw.named ht ha hb hr), fun _ r hr => hd.2 trivial r (he r hr)⟩

theorem Within.spells (hs : b.Spells name) : a.Spells name := by
  obtain ⟨m, hm, hk, htext, htarget⟩ := hs
  have hroot := (contains_iff_below hb.shaped.consistent).mp hm
  have hlt : m < t.size := by
    by_contra hge
    rw [hb.remains.fresh_kind m (not_lt.mp hge) (hroot.lt_size hb.shaped.consistent)] at hk
    cases hk
  rw [hb.remains.kind_eq m hlt] at hk
  rw [hb.remains.text_eq m hlt] at htext
  rw [hb.remains.isAssignmentTarget_eq ht hlt hroot] at htarget
  have hroot' := hw m ⟨hlt, Kind.solid_of_test hk rfl rfl⟩ hroot
  exact ⟨m, (contains_iff_below ha.shaped.consistent).mpr hroot', (ha.remains.kind_eq m hlt).symm ▸ hk,
    (ha.remains.text_eq m hlt).trans htext, (ha.remains.isAssignmentTarget_eq ht hlt hroot').trans htarget⟩

end Within

/-! ## Dangling assignments -/

/-- An analysis that reflects the tree tells which names are bound. -/
theorem bound_eq (ht : t.Consistent) {x : Analysis} {refs : List (NodeId × NodeId)} (hr : Reflects x t refs)
    (hn : t.Below t.root n) : x.bound (x.enclosing t n) name =
      ((t.resolve? (t.scopeNode n) name).isSome || builtinGlobals.contains name) := by
  have h := congrArg Option.isSome (hr.lookup? ht hn name)
  rw [Option.isSome_map, Option.isSome_map] at h
  rw [Analysis.bound, h]

theorem danglesAt_iff (ht : t.Consistent) (hn : t.Below t.root n) : t.DanglesAt n name ↔ t.Assigns n name ∧
    t.resolve? (t.scopeNode n) name = none ∧ builtinGlobals.contains name = false := by
  rw [DanglesAt, crawled, bound_eq ht (reflects_crawl ht {}) hn, Bool.or_eq_false_iff, Option.isSome_eq_false_iff,
    Option.isNone_iff_eq_none]

theorem Residue.scopeNode_eq (h : Residue t t') (hm : m < t.size) (hb : t'.Below t'.root m) :
    t'.scopeNode m = t.scopeNode m := by
  rw [scopeNode, scopeNode, h.scopes m hm hb, h.remains.root]

/-- The scopes that an assignment looks its name up in. -/
theorem Residue.scopeChain_eq (h : Residue t t') (ht : t.Consistent) (hm : m < t.size) (hb : t'.Below t'.root m) :
    t'.scopeChain (t'.scopeNode m) = t.scopeChain (t.scopeNode m) := by
  have hroot := h.remains.attached m hm hb
  have hs := (h.remains.below_of_below ht hm hb (scopeNode_below ht hroot)).2
  rw [h.scopeNode_eq hm hb, h.scopes _ ((hroot.root_of_below ht (scopeNode_below ht hroot)).lt_size ht) hs]

/-- A name that dangles does so where less is left. -/
theorem Within.dangles {a b : Tree} (ht : t.Consistent) (ha : Residue t a) (hb : Residue t b) (hw : t.Within b a)
    (hd : a.DanglesAt n name) (hroot : b.Below b.root n) (hn : n < t.size) : b.DanglesAt n name := by
  have hkn : t.kind n = .assignmentExpression := (ha.remains.kind_eq n hn).symm.trans hd.1.kind
  have hroota := hw n ⟨hn, by rw [hkn]; decide, by rw [hkn]; decide⟩ hroot
  obtain ⟨hassigns, hnone, hbuiltin⟩ := (danglesAt_iff ha.shaped.consistent hroota).mp hd
  rw [resolve?_eq_none_iff, ha.scopeChain_eq ht hn hroota] at hnone
  refine (danglesAt_iff hb.shaped.consistent hroot).mpr ⟨?_, ?_, hbuiltin⟩
  · exact (hb.assigns_iff ht hn hroot).mpr ((ha.assigns_iff ht hn hroota).mp hassigns)
  · rw [resolve?_eq_none_iff, hb.scopeChain_eq ht hn hroot]
    intro d hd htarget htext
    have hda := hw.bindings ht ha hb hd
    have hlt := (declared_attached ht (mem_declarations_of_binding ((hb.bindings d).mp hd).1)).lt_size ht
    refine hnone d hda htarget ?_
    rw [ha.remains.text_eq _ hlt, ← hb.remains.text_eq _ hlt, htext]

/-- A dangling assignment that is left still dangles. -/
theorem Residue.dangles (hw : WellShaped True t) (hl : t.Local) (h : Residue t t') (hd : t.DanglesAt n name)
    (hroot : t'.Below t'.root n) (hn : n < t.size) : t'.DanglesAt n name :=
  Within.dangles hw.consistent (.refl hw hl) h (fun m hm => h.remains.attached m hm.1) hd hroot hn

/-- A name that nothing spells is spelled by nothing that is left. -/
theorem Residue.spells (hw : WellShaped True t) (hl : t.Local) (h : Residue t t') (hs : t'.Spells name) :
    t.Spells name :=
  Within.spells hw.consistent (.refl hw hl) h (fun m hm => h.remains.attached m hm.1) hs

end Tree
end DeadCode
