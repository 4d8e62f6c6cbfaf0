import DeadCode.Proofs.Engine.Edits
import DeadCode.Proofs.Engine.Followers

/-!
Removing the construct of a binding without references. The removal never fails (`ends_removeBinding`). It is a
series of prunings; each is clean if the analysis was up to date and, where a declarator leaves, if nothing
left in the tree refers to a name that left with it. In a `Local` tree nothing does.
-/

namespace DeadCode

open DeadCode.Tree Workspace

variable {P X : Prop} {id : AnalysisId} {w w' : Workspace} {n q : NodeId}

/-- A statement cut is a pruning. -/
theorem Tree.StatementCut.pruning {t t' : Tree} (h : StatementCut t t' q n) :
    ∃ gone, Pruning t t' q n gone ∧ (t.kind q).listsImports = false := by
  rcases h with ⟨hk, gone, hd⟩ | ⟨hk, hr⟩
  · refine ⟨gone, .statement hk hd, ?_⟩
    cases hkq : t.kind q <;> rw [hkq] at hk <;> first | rfl | exact absurd hk Bool.false_ne_true
  · refine ⟨[n], .slot hk hr rfl, ?_⟩
    by_contra hl
    have := (Kind.not_listed_of_listsImports (by simpa using hl)).2.1 (t.node n).field
    rw [hk] at this
    cases this

/-- The node that is cut into stays. -/
theorem Tree.Cut.site_stays {t t' : Tree} {gone : List NodeId} (ht : t.Consistent) (h : Cut t t' q n gone)
    (hq : t.Below t.root q) : Stays t gone q :=
  ⟨hq, fun g hg hb => not_below_of_parent ht hq (h.parent_of_gone g hg) hb⟩

/-! ## What is known before a removal -/

/-- `b` is a binding of an analysis that has crawled, and was found to have no references. -/
structure Doomed (X : Prop) (id : AnalysisId) (w : Workspace) (β : BindingId) (b : Binding) : Prop where
  tracked : Tracked X id w
  crawled : (w.analysis id).version ≠ none
  lt : β < (w.analysis id).bindings.size
  binding : (w.analysis id).binding β = b
  unreferenced : b.references = []

/-- The cut took away a name that something left in the tree referred to. -/
def Tree.Severs (X : Prop) (t t' : Tree) : Prop :=
  ∃ r, (r ∈ t.named ∨ X ∧ r ∈ t.exported) ∧ t'.Below t'.root r.1 ∧ ¬ t'.Below t'.root r.2

theorem Tree.not_severs_of_contains {t t' : Tree} (ht : t'.Consistent)
    (h : ∀ r ∈ t.named ++ t.exported, t'.contains r.1 = true → t'.contains r.2 = true) : ¬ Severs X t t' := by
  rintro ⟨r, hr, hin, hout⟩
  have hmem : r ∈ t.named ++ t.exported := List.mem_append.mpr (hr.imp_right And.right)
  exact hout ((contains_iff_below ht).mp (h r hmem ((contains_iff_below ht).mpr hin)))

theorem Tree.clean_of_not_severs {t t' : Tree} {gone : List NodeId} (ht : t.Consistent)
    (h : Cut t t' q n gone) (hq : t.Below t.root q) (hs : ¬ Severs X t t') : t.Clean X (t.offcut gone) := by
  have closed : ∀ r, (r ∈ t.named ∨ X ∧ r ∈ t.exported) → t.Below t.root r.1 → r.2 ∈ t.offcut gone →
      r.1 ∈ t.offcut gone := by
    intro r hr hroot hoff
    by_contra hstay
    have hst : Stays t gone r.1 := (stays_iff_mem ht h hq).mpr ⟨(mem_walk_iff ht).mpr hroot, hstay⟩
    refine hs ⟨r, hr, (stays_iff ht h (hst.lt_size ht)).mp hst, fun hb => ?_⟩
    obtain ⟨g, hg, hbelow⟩ := (h.mem_offcut_iff ht hq).mp hoff
    have hlt : r.2 < t.size :=
      ((Below.step (h.parent_of_gone g hg) hq).trans hbelow).lt_size ht
    exact h.not_below_gone ht hlt hb hg hbelow
  refine ⟨fun r hr => closed r (.inl hr) (named_attached ht hr), fun hx r hr => ?_⟩
  exact closed r (.inr ⟨hx, hr⟩) (reference_inside ht (exported_subset_references r hr)).1

namespace Doomed

variable {β : BindingId} {b : Binding}

theorem sited (h : Doomed X id w β b) : Sited (w.analysis id) w.tree :=
  h.tracked.sited.elim (fun hv => absurd hv h.crawled) And.right

theorem placed (h : Doomed X id w β b) (hroot : w.tree.Below w.tree.root b.path) : b.Placed w.tree := by
  have := h.sited.placed β h.lt
  rw [h.binding] at this
  exact this hroot

theorem current (h : Doomed X id w β b) (hu : UpToDate X id w) : Current X (w.analysis id) w.tree :=
  hu.resolve_left h.crawled

/-- The declaration of a binding that is doomed has no references. -/
theorem declaration (h : Doomed X id w β b) (hu : UpToDate X id w)
    (hroot : w.tree.Below w.tree.root b.path) :
    ∃ d ∈ w.tree.bindings, Describes (w.analysis id) w.tree b d ∧ w.tree.Unused X d := by
  have hcur := h.current hu
  obtain ⟨d, hd, hid, hdesc⟩ := hcur.declaration h.lt (by rw [h.binding]; exact hroot)
  rw [h.binding] at hdesc
  exact ⟨d, hd, hdesc, hcur.unused h.lt hid (by rw [h.binding, h.unreferenced])⟩

/-- A declarator that the reducer does not hold for another of its names has no name in use. -/
theorem names_unused (h : Doomed X id w β b) (hu : UpToDate X id w) (hroot : w.tree.Below w.tree.root b.path)
    (hc : b.construct = .declarator) (hfree : ¬ (w.analysis id).Holds b) :
    ∀ d ∈ w.tree.declarationsOf b.path, d ∈ w.tree.bindings → w.tree.Unused X d := by
  have hunused := (h.current hu).declarator_unused h.tracked.tree.consistent h.lt
    (by rw [h.binding]; exact hroot) (by rw [h.binding]; exact hc)
  rw [h.binding] at hunused
  refine hunused fun name hname c hown hpath => ?_
  by_contra hrefs
  exact hfree ⟨name, hname, c, hown, hpath, hrefs⟩

end Doomed

/-! ## How a construct leaves -/

/-- As `Trims`, with the nodes at whose top the cuts were made. -/
inductive Clips (P X : Prop) (w : Workspace) : List NodeId → Workspace → Prop
  | nil : Clips P X w [] w
  | settle {u : Workspace} {t : Tree} {q n : NodeId} {gone ns : List NodeId} : Clips P X w ns u →
      Pruning u.tree t q n gone → u.tree.Below u.tree.root q → (P → u.tree.Clean X (u.tree.offcut gone)) →
      Clips P X w (ns ++ [n]) (u.settle t n)

namespace Clips

variable {ns ms : List NodeId}

theorem trims (h : Clips P X w ns w') : Trims P X w w' := by
  induction h with
  | nil => exact .refl
  | settle _ hp hq hc ih => exact .settle ih hp hq hc

theorem append (h : Clips P X w ns w') (h' : Clips P X w' ms w'') : Clips P X w (ns ++ ms) w'' := by
  induction h' with
  | nil =>
    rw [List.append_nil]
    exact h
  | settle _ hp hq hc ih =>
    rw [← List.append_assoc]
    exact .settle ih hp hq hc

end Clips

/-- The construct of a binding leaves the tree by itself, with the declaration of which it is the last declarator, or
with the import clause that it leaves empty and perhaps the word `from`. Listed are the nodes cut off. -/
inductive Drops (id : AnalysisId) (w : Workspace) (b : Binding) : List NodeId → Workspace → Prop
  | function {q : NodeId} {t : Tree} : b.construct = .function → StatementCut w.tree t q b.path →
      Drops id w b [b.path] (w.settle t b.path)
  | declaration {q D : NodeId} {t : Tree} : b.construct = .declarator → ¬ (w.analysis id).Holds b →
      w.tree.parent b.path = some D → w.tree.Sole D b.path → StatementCut w.tree t q D →
      Drops id w b [D] (w.settle t D)
  | declarator {D : NodeId} {t : Tree} {gone : List NodeId} : b.construct = .declarator →
      ¬ (w.analysis id).Holds b → ¬ w.tree.Sole D b.path → Detached w.tree t D b.path gone →
      Drops id w b [b.path] (w.settle t b.path)
  | specifier {list : NodeId} {t : Tree} {gone : List NodeId} : b.construct = .importSpecifier →
      w.tree.kind list = .namedImports → Detached w.tree t list b.path gone →
      Drops id w b [b.path] (w.settle t b.path)
  | default {c : NodeId} {t : Tree} {gone : List NodeId} : b.construct = .importDefault →
      w.tree.kind c = .importClause → Detached w.tree t c b.path gone → t.namedChildren c ≠ [] →
      Drops id w b [b.path] (w.settle t b.path)
  | clause {c s : NodeId} {t t₂ : Tree} {gone gone₂ : List NodeId} : b.construct = .importDefault →
      w.tree.kind c = .importClause → w.tree.kind s = .importStatement → Detached w.tree t c b.path gone →
      t.namedChildren c = [] → Detached t t₂ s c gone₂ →
      Drops id w b [b.path, c] ((w.settle t b.path).settle t₂ c)
  | word {c s word : NodeId} {t t₂ t₃ : Tree} {gone gone₂ gone₃ : List NodeId} : b.construct = .importDefault →
      w.tree.kind c = .importClause → w.tree.kind s = .importStatement → Detached w.tree t c b.path gone →
      t.namedChildren c = [] → Detached t t₂ s c gone₂ → t₂.kind word = .fromWord → Detached t₂ t₃ s word gone₃ →
      Drops id w b [b.path, c, word] (((w.settle t b.path).settle t₂ c).settle t₃ word)

variable {β : BindingId} {b : Binding}

namespace Job

/-- What the removal of a binding makes of the workspace, step by step. -/
def DropsIf (id : AnalysisId) (w : Workspace) (b : Binding) (done : Bool) (w' : Workspace) : Prop :=
  (done = false → w' = w) ∧ (done = true → ∃ ns u r, Drops id w b ns u ∧ w' = { u with report := r })

theorem dropsIf_false : DropsIf id w b false w := ⟨fun _ => rfl, fun h => (by cases h)⟩

theorem dropsIf_true {ns : List NodeId} {u : Workspace} (h : Drops id w b ns u) (r : Report) :
    DropsIf id w b true { u with report := r } :=
  ⟨fun h => (by cases h), fun _ => ⟨ns, u, r, h, rfl⟩⟩

theorem ends_removeFunction (h : Doomed X id w β b) (hroot : w.tree.Below w.tree.root b.path)
    (hc : b.construct = .function) : (removeFunction b).Ends w (DropsIf id w b) Never := by
  have hne : b.path ≠ w.tree.root := fun he => by
    have hk := h.placed hroot
    rw [Binding.Placed, hc, he, h.tracked.tree.shape.root_program] at hk
    rcases hk with hk | hk <;> cases hk
  obtain ⟨q, hp, _⟩ := hroot.parent hne
  rw [removeFunction, ends_bind]
  refine (ends_removeStatement h.tracked.tree.consistent hp).imp fun done w' hdone => ?_
  rcases hdone with ⟨rfl, t, hcut, rfl⟩ | ⟨rfl, rfl, _⟩
  · exact dropsIf_true (.function hc hcut) _
  · exact dropsIf_false

theorem ends_removeDeclarator (h : Doomed X id w β b) (hroot : w.tree.Below w.tree.root b.path)
    (hc : b.construct = .declarator) : (removeDeclarator id b).Ends w (DropsIf id w b) Never := by
  have ht := h.tracked.tree.consistent
  have hs := h.tracked.tree.shape
  have hk : w.tree.kind b.path = .variableDeclarator := by
    have := h.placed hroot
    rwa [Binding.Placed, hc] at this
  have hne : b.path ≠ w.tree.root := fun he => by
    rw [he, hs.root_program] at hk
    cases hk
  obtain ⟨D, hp, hD⟩ := hroot.parent hne
  have hholds := (hs.keyword b.path D hroot hk hp).1
  rw [removeDeclarator, ends_bind, ends_get]
  simp only []
  split
  · exact dropsIf_false
  · rename_i hheld
    have hfree : ¬ (w.analysis id).Holds b := fun hh => hheld ((holds_iff _ b).mpr hh)
    rw [hp]
    refine ends_ite (fun hone => ?_) fun hmany => ?_
    · have hDroot : D ≠ w.tree.root := fun he => by
        rw [he, hs.root_program] at hholds
        cases hholds
      obtain ⟨q, hpD, _⟩ := hD.parent hDroot
      rw [ends_bind]
      refine (ends_removeStatement ht hpD).imp fun done w' hdone => ?_
      rcases hdone with ⟨rfl, t, hcut, rfl⟩ | ⟨rfl, rfl, _⟩
      · exact dropsIf_true (.declaration hc hfree hp ((sole_iff ht hp hk).mp hone) hcut) _
      · exact dropsIf_false
    · rw [ends_bind]
      have hclause : w.tree.kind D ≠ .importClause := fun he => by
        rw [he] at hholds
        cases hholds
      refine (ends_removeListMember ht hp hclause).imp fun _ w' hw' => ?_
      obtain ⟨t, gone, hd, rfl⟩ := hw'
      exact dropsIf_true (.declarator hc hfree (fun hsole => hmany ((sole_iff ht hp hk).mpr hsole)) hd) _

theorem ends_removeImport (h : Doomed X id w β b) (hroot : w.tree.Below w.tree.root b.path)
    (hc : b.construct = .importSpecifier ∨ b.construct = .importDefault) :
    (removeImport b).Ends w (DropsIf id w b) Never := by
  have ht := h.tracked.tree.consistent
  have hplaced := h.placed hroot
  rw [removeImport, ends_bind]
  rcases hc with hc | hc
  · rw [Binding.Placed, hc] at hplaced
    obtain ⟨_, list, hp, hk⟩ := hplaced
    refine (ends_removeListMember ht hp (by rw [hk]; decide)).imp fun _ w' hw' => ?_
    obtain ⟨t, gone, hd, rfl⟩ := hw'
    exact dropsIf_true (.specifier hc hk hd) _
  · rw [Binding.Placed, hc] at hplaced
    obtain ⟨_, c, s, hp, hk, hps, hks⟩ := hplaced
    refine (ends_removeListMember_clause ht (hroot.root_of_below ht (.of_parent hp)) hk hp hps).imp fun _ w' hw' => ?_
    obtain ⟨t, gone, hd, ⟨hsome, rfl⟩ | ⟨hempty, t₂, gone₂, hd₂, rfl | ⟨word, t₃, gone₃, hkw, hd₃, rfl⟩⟩⟩ := hw'
    · exact dropsIf_true (.default hc hk hd hsome) _
    · exact dropsIf_true (.clause hc hk hks hd hempty hd₂) _
    · exact dropsIf_true (.word hc hk hks hd hempty hd₂ hkw hd₃) _

/-- A removal does not fail. -/
theorem ends_removeBinding_drops (h : Doomed X id w β b) : (removeBinding id b).Ends w (fun done w' =>
    DropsIf id w b done w' ∧ (done = true → w.tree.Below w.tree.root b.path)) Never := by
  rw [removeBinding]
  refine ends_ite (fun _ => ⟨dropsIf_false, fun h => (by cases h)⟩) fun hother => ?_
  rw [ends_bind, ends_get]
  refine ends_ite (fun _ => ⟨dropsIf_false, fun h => (by cases h)⟩) fun hcontains => ?_
  have hroot : w.tree.Below w.tree.root b.path :=
    (contains_iff_below h.tracked.tree.consistent).mp (by simpa using hcontains)
  cases hc : b.construct with
  | declarator => exact (ends_removeDeclarator h hroot hc).imp fun _ _ hd => ⟨hd, fun _ => hroot⟩
  | function => exact (ends_removeFunction h hroot hc).imp fun _ _ hd => ⟨hd, fun _ => hroot⟩
  | importSpecifier => exact (ends_removeImport h hroot (.inl hc)).imp fun _ _ hd => ⟨hd, fun _ => hroot⟩
  | importDefault => exact (ends_removeImport h hroot (.inr hc)).imp fun _ _ hd => ⟨hd, fun _ => hroot⟩
  | other => exact absurd hc hother

end Job

/-! ## The cuts are clean -/

/-- A statement leaves by a pruning that is clean if every pruning of it is. -/
theorem clips_statement (hroot : w.tree.Below w.tree.root n) {t : Tree} (hcut : StatementCut w.tree t q n)
    (ht : w.tree.Consistent) (hclean : P → ∀ gone, Pruning w.tree t q n gone → w.tree.Below w.tree.root q →
      (w.tree.kind q).listsImports = false → w.tree.Clean X (w.tree.offcut gone)) : Clips P X w [n] (w.settle t n) := by
  obtain ⟨gone, hp, hlists⟩ := hcut.pruning
  have hq := hroot.root_of_below ht (.of_parent hp.cut.parent_mem)
  exact .settle .nil hp hq fun h => hclean h gone hp hq hlists

theorem clean_of_function (h : Doomed X id w β b) (hroot : w.tree.Below w.tree.root b.path)
    (hc : b.construct = .function) {t : Tree} {gone : List NodeId} (hp : Pruning w.tree t q b.path gone)
    (hq : w.tree.Below w.tree.root q) (hlists : (w.tree.kind q).listsImports = false) (hu : UpToDate X id w) :
    w.tree.Clean X (w.tree.offcut gone) := by
  have ht := h.tracked.tree.consistent
  have hs := h.tracked.tree.shape
  have hk : w.tree.kind b.path = .functionDeclaration ∨ w.tree.kind b.path = .generatorFunctionDeclaration := by
    have := h.placed hroot
    rwa [Binding.Placed, hc] at this
  obtain ⟨d, hd, hdesc, hunused⟩ := h.declaration hu hroot
  have hname := function_of_construct ht (mem_declarations_of_binding hd) (hdesc.construct ▸ hc)
  rw [← hdesc.path] at hname
  exact ⟨closed_of_function ht hs hp hq named_subset_references hk hname hlists hunused.1,
    fun hx => closed_of_function ht hs hp hq exported_subset_references hk hname hlists (hunused.2 hx)⟩

/-- The cut of a declarator, alone or with its declaration, is clean if no name of it is referenced. -/
theorem clean_of_declarator (h : Doomed X id w β b) (hroot : w.tree.Below w.tree.root b.path)
    (hc : b.construct = .declarator) (hfree : ¬ (w.analysis id).Holds b)
    {t : Tree} {gone : List NodeId} (hp : Pruning w.tree t q n gone) (hq : w.tree.Below w.tree.root q)
    (hlists : (w.tree.kind q).listsImports = false)
    (hpath : b.path = n ∨ w.tree.parent b.path = some n ∧ w.tree.Sole n b.path)
    (hu : UpToDate X id w) (hsev : w.tree.Local ∨ ¬ Severs X w.tree t) :
    w.tree.Clean X (w.tree.offcut gone) := by
  have ht := h.tracked.tree.consistent
  rcases hsev with hl | hsev
  · have hk : w.tree.kind b.path = .variableDeclarator := by
      have := h.placed hroot
      rwa [Binding.Placed, hc] at this
    have hunused := h.names_unused hu hroot hc hfree
    exact ⟨closed_of_declarator ht h.tracked.tree.shape hp hq named_subset_references hl hk hpath hlists
        fun d hd hb => (hunused d hd hb).1,
      fun hx => closed_of_declarator ht h.tracked.tree.shape hp hq exported_subset_references hl hk hpath
        hlists fun d hd hb => (hunused d hd hb).2 hx⟩
  · exact clean_of_not_severs ht hp.cut hq hsev

/-- The first cut of an import: a specifier, or a default import by itself. -/
theorem clean_of_import (h : Doomed X id w β b) (hroot : w.tree.Below w.tree.root b.path)
    (hc : b.construct = .importSpecifier ∨ b.construct = .importDefault) {t : Tree} {gone : List NodeId}
    (hp : Pruning w.tree t q b.path gone) (hq : w.tree.Below w.tree.root q) (hu : UpToDate X id w) :
    w.tree.Clean X (w.tree.offcut gone) := by
  have ht := h.tracked.tree.consistent
  have hs := h.tracked.tree.shape
  obtain ⟨d, hd, hdesc, hunused⟩ := h.declaration hu hroot
  have hdecl := mem_declarations_of_binding hd
  have hplaced := h.placed hroot
  rcases hc with hc | hc
  · rw [Binding.Placed, hc] at hplaced
    have hname := specifier_of_construct ht hdecl (hdesc.construct ▸ hc)
    rw [← hdesc.path] at hname
    exact ⟨closed_of_specifier ht hs hp hq named_subset_references hplaced.1 hname hunused.1,
      fun hx => closed_of_specifier ht hs hp hq exported_subset_references hplaced.1 hname (hunused.2 hx)⟩
  · rw [Binding.Placed, hc] at hplaced
    have hid := default_of_construct ht hdecl (hdesc.construct ▸ hc)
    rw [← hdesc.path] at hid
    have hleaf := hs.leaf b.path hroot (.inl (by rw [hplaced.1]; rfl))
    have free : ∀ {refs : List (NodeId × NodeId)}, Free refs d → ∀ e : Declaration NodeId,
        e.identifier = b.path → Free refs e := fun hfree e he r hr => he.trans hid ▸ hfree r hr
    exact ⟨closed_of_leaf ht hs.toFramed hp hq named_subset_references hleaf fun _ => free hunused.1,
      fun hx => closed_of_leaf ht hs.toFramed hp hq exported_subset_references hleaf fun _ => free (hunused.2 hx)⟩

/-- A part of an import leaves. -/
theorem clips_importPart (h : Doomed X id w β b) (hroot : w.tree.Below w.tree.root b.path)
    (hc : b.construct = .importSpecifier ∨ b.construct = .importDefault) {c : NodeId}
    (hlists : (w.tree.kind c).listsImports = true) {t : Tree} {gone : List NodeId}
    (hd : Detached w.tree t c b.path gone) (hP : P → UpToDate X id w) :
    Clips P X w [b.path] (w.settle t b.path) := by
  have hcroot := hroot.root_of_below h.tracked.tree.consistent (.of_parent hd.parent_mem)
  have hp : Pruning w.tree t c b.path gone := .importPart hlists hd
  exact .settle .nil hp hcroot fun hu => clean_of_import h hroot hc hp hcroot (hP hu)

/-- An emptied clause goes, and with it the word `from`: neither declares anything. -/
theorem clips_clause (hw : WellShaped X w.tree) {c s : NodeId} (hkc : w.tree.kind c = .importClause)
    (hs : w.tree.Below w.tree.root s) (hks : w.tree.kind s = .importStatement)
    (hempty : w.tree.namedChildren c = []) {t : Tree} {gone : List NodeId}
    (hd : Detached w.tree t s c gone) : Clips P X w [c] (w.settle t c) ∧ (∀ word t₂ gone₂,
      t.kind word = .fromWord → Detached t t₂ s word gone₂ →
      Clips P X w [c, word] ((w.settle t c).settle t₂ word)) := by
  have hlists : (w.tree.kind s).listsImports = true := by rw [hks]; rfl
  have hp : Pruning w.tree t s c gone := .importPart hlists hd
  have h1 : Clips P X w [c] (w.settle t c) := .settle .nil hp hs fun _ =>
    ⟨closed_of_clause hw.consistent hw.shape.toFramed hp hs named_subset_references hkc hempty,
      fun _ => closed_of_clause hw.consistent hw.shape.toFramed hp hs exported_subset_references hkc hempty⟩
  refine ⟨h1, fun word t₂ gone₂ hkw hd₂ => ?_⟩
  have ht := hw.cut hp
  have hkst : t.kind s = .importStatement := (hd.kind_eq s (hs.lt_size hw.consistent)).trans hks
  have hst : t.Below t.root s :=
    (stays_iff hw.consistent hd.toCut (hs.lt_size hw.consistent)).mp (hd.site_stays hw.consistent hs)
  have hp₂ : Pruning t t₂ s word gone₂ := .importPart (by rw [hkst]; rfl) hd₂
  have hleaf := ht.shape.leaf word (.step hd₂.parent_mem hst) (.inl (by rw [hkw]; rfl))
  have none : ∀ {refs : List (NodeId × NodeId)}, t.kind word = .identifier → ∀ d : Declaration NodeId,
      d.identifier = word → Free refs d := fun hk => by
    rw [hkw] at hk
    cases hk
  refine .settle h1 (by rw [tree_settle]; exact hp₂) (by rw [tree_settle]; exact hst) fun _ => ?_
  rw [tree_settle]
  exact ⟨closed_of_leaf ht.consistent ht.shape.toFramed hp₂ hst named_subset_references hleaf none,
    fun _ => closed_of_leaf ht.consistent ht.shape.toFramed hp₂ hst exported_subset_references hleaf none⟩

namespace Drops

variable {ns : List NodeId} {u : Workspace}

/-- The clause that a default import leaves empty, in the tree without the import. -/
theorem clause_left (h : Doomed X id w β b) (hroot : w.tree.Below w.tree.root b.path) {c s : NodeId}
    (hkc : w.tree.kind c = .importClause) (hks : w.tree.kind s = .importStatement) {t t₂ : Tree}
    {gone gone₂ : List NodeId} (hd : Detached w.tree t c b.path gone) (hd₂ : Detached t t₂ s c gone₂) :
    WellShaped X t ∧ t.kind c = .importClause ∧ t.Below t.root s ∧ t.kind s = .importStatement := by
  have ht := h.tracked.tree.consistent
  have hp : Pruning w.tree t c b.path gone := .importPart (by rw [hkc]; rfl) hd
  have hcst := hd.site_stays ht (hroot.root_of_below ht (.of_parent hd.parent_mem))
  have hps : w.tree.parent c = some s := (hd.parent_stays ht hcst).symm.trans hd₂.parent_mem
  have hlt := ht.parent_lt hps
  exact ⟨h.tracked.tree.cut hp, (hd.kind_eq c (hcst.lt_size ht)).trans hkc,
    (stays_iff ht hd.toCut hlt).mp (hcst.parent ht hps), (hd.kind_eq s hlt).trans hks⟩

/-- Each cut is clean if the analysis was up to date and, where a declarator leaves, if nothing left in the tree
refers to a name that left with it. -/
theorem clips (hd : Drops id w b ns u) (h : Doomed X id w β b) (hroot : w.tree.Below w.tree.root b.path) :
    Clips (UpToDate X id w ∧ (w.tree.Local ∨ ¬ Severs X w.tree u.tree)) X w ns u := by
  have ht := h.tracked.tree.consistent
  cases hd with
  | function hc hcut =>
    exact clips_statement hroot hcut ht fun hP gone hp hq hlists => clean_of_function h hroot hc hp hq hlists hP.1
  | declaration hc hfree hp hsole hcut =>
    refine clips_statement (hroot.root_of_below ht (.of_parent hp)) hcut ht fun hP gone hpr hq hlists => ?_
    rw [tree_settle] at hP
    exact clean_of_declarator h hroot hc hfree hpr hq hlists (.inr ⟨hp, hsole⟩) hP.1 hP.2
  | declarator hc hfree _ hd =>
    have hk := h.placed hroot
    rw [Binding.Placed, hc] at hk
    have hholds := (h.tracked.tree.shape.keyword b.path _ hroot hk hd.parent_mem).1
    have hq := hroot.root_of_below ht (.of_parent hd.parent_mem)
    have hpr := Pruning.declarator hholds hk hd
    refine .settle .nil hpr hq fun hP => ?_
    rw [tree_settle] at hP
    exact clean_of_declarator h hroot hc hfree hpr hq (Kind.not_listed_of_holdsDeclarators hholds).2.2 (.inl rfl)
      hP.1 hP.2
  | specifier hc hk hd => exact clips_importPart h hroot (.inl hc) (by rw [hk]; rfl) hd And.left
  | default hc hk hd _ => exact clips_importPart h hroot (.inr hc) (by rw [hk]; rfl) hd And.left
  | @clause c s t t₂ gone gone₂ hc hk hks hd hempty hd₂ =>
    obtain ⟨hw, hkc, hs, hks⟩ := clause_left h hroot hk hks hd hd₂
    rw [← tree_settle w t b.path] at hw hkc hs hks hempty hd₂
    exact (clips_importPart h hroot (.inr hc) (by rw [hk]; rfl) hd And.left).append
      (clips_clause hw hkc hs hks hempty hd₂).1
  | @word c s word t t₂ t₃ gone gone₂ gone₃ hc hk hks hd hempty hd₂ hkw hd₃ =>
    obtain ⟨hw, hkc, hs, hks⟩ := clause_left h hroot hk hks hd hd₂
    rw [← tree_settle w t b.path] at hw hkc hs hks hempty hd₂
    exact (clips_importPart h hroot (.inr hc) (by rw [hk]; rfl) hd And.left).append
      ((clips_clause hw hkc hs hks hempty hd₂).2 _ _ _ hkw hd₃)

/-- The construct is out. -/
theorem detached (hd : Drops id w b ns u) (h : Doomed X id w β b) (hroot : w.tree.Below w.tree.root b.path) :
    ¬ u.tree.Below u.tree.root b.path := by
  have ht := h.tracked.tree.consistent
  have hlt := hroot.lt_size ht
  have statement : ∀ {t : Tree} {q m : NodeId}, StatementCut w.tree t q m → w.tree.Below m b.path →
      ¬ t.Below t.root b.path := fun hcut hb hin => by
    obtain ⟨gone, hcut⟩ := hcut.cut
    exact hcut.not_below_gone ht hlt hin hcut.node_mem hb
  have part : ∀ {t : Tree} {c : NodeId} {gone : List NodeId}, Detached w.tree t c b.path gone →
      ¬ t.Below t.root b.path := fun hd hin => hd.not_below_gone ht hlt hin hd.node_mem .refl
  cases hd with
  | function _ hcut => exact tree_settle w _ _ ▸ statement hcut .refl
  | declaration _ _ hp _ hcut => exact tree_settle w _ _ ▸ statement hcut (.of_parent hp)
  | declarator _ _ _ hd => exact tree_settle w _ _ ▸ part hd
  | specifier _ _ hd => exact tree_settle w _ _ ▸ part hd
  | default _ _ hd _ => exact tree_settle w _ _ ▸ part hd
  | clause _ _ _ hd _ hd₂ =>
    rw [tree_settle]
    exact fun hin => part hd ((hd₂.remains (hd.consistent ht)).attached _ (lt_of_lt_of_le hlt hd.size_le) hin)
  | word _ _ _ hd _ hd₂ _ hd₃ =>
    rw [tree_settle]
    have hr := (hd₂.remains (hd.consistent ht)).trans (hd₃.remains (hd₂.consistent (hd.consistent ht)))
    exact fun hin => part hd (hr.attached _ (lt_of_lt_of_le hlt hd.size_le) hin)

end Drops

namespace Job

/-- What the removal of a binding comes to. -/
def Removes (X : Prop) (id : AnalysisId) (w : Workspace) (b : Binding) (done : Bool) (w' : Workspace) : Prop :=
  (done = false → w' = w) ∧
    (done = true → w.tree.Below w.tree.root b.path ∧ ¬ w'.tree.Below w'.tree.root b.path) ∧
    Trims (UpToDate X id w ∧ (w.tree.Local ∨ ¬ Severs X w.tree w'.tree)) X w w'

/-- A removal does not fail, and takes the construct out or changes nothing. -/
theorem ends_removeBinding (h : Doomed X id w β b) :
    (removeBinding id b).Ends w (Removes X id w b) Never := by
  refine (ends_removeBinding_drops h).imp fun done w' hdone => ?_
  obtain ⟨⟨hfalse, htrue⟩, hroot⟩ := hdone
  cases done with
  | false =>
    obtain rfl := hfalse rfl
    exact ⟨fun _ => rfl, fun h => (by cases h), .refl⟩
  | true =>
    obtain ⟨ns, u, r, hd, rfl⟩ := htrue rfl
    have hroot := hroot rfl
    exact ⟨fun h => (by cases h), fun _ => ⟨hroot, hd.detached h hroot⟩, .report r (hd.clips h hroot).trims⟩

end Job

end DeadCode
