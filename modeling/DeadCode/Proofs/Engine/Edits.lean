import DeadCode.Proofs.Engine.Followers
import DeadCode.Proofs.Engine.Jobs
import DeadCode.Proofs.Names.Patterns
import DeadCode.Proofs.Tree.Remains
import DeadCode.Reduction

/-!
Edits of the workspace, in any consistent tree. `Edits w w'`: the tree of `w` was cut, with all followers told,
until it was that of `w'`. What an analysis knows of where constructs stand survives this (`Edits.tracks`), and
an assignment stays in its statement as long as that is attached (`Edits.statement_kept`). The removal of a
binding is such a series of cuts, if it does not fail, and changes nothing exactly if it declines
(`ends_removeBinding_edits`, `removeBinding_of_declines`).
-/

namespace DeadCode

open DeadCode.Tree Workspace

inductive Edits (w : Workspace) : Workspace → Prop
  | refl : Edits w w
  | settle {u : Workspace} {t : Tree} {q n : NodeId} {gone : List NodeId} : Edits w u →
      Cut u.tree t q n gone → u.tree.Spares q gone → Edits w (u.settle t n)
  | report {u : Workspace} (r : Report) : Edits w u → Edits w { u with report := r }

/-- The analysis follows the tree and knows where the constructs stand, or has not crawled yet. -/
structure Tracks (id : AnalysisId) (w : Workspace) : Prop where
  consistent : w.tree.Consistent
  follows : w.Follows id
  sited : (w.analysis id).version = none ∨
    (w.analysis id).version = some w.tree.version ∧ Sited (w.analysis id) w.tree

variable {X P : Prop} {id : AnalysisId} {w w' w'' : Workspace} {n q : NodeId}

theorem Tracked.tracks (h : Tracked X id w) : Tracks id w := ⟨h.tree.consistent, h.follows, h.sited⟩

namespace Edits

theorem trans (h : Edits w w') (h' : Edits w' w'') : Edits w w'' := by
  induction h' with
  | refl => exact h
  | settle _ hcut hspares ih => exact .settle ih hcut hspares
  | report r _ ih => exact .report r ih

theorem remains (h : Edits w w') (hw : w.tree.Consistent) : Remains w.tree w'.tree := by
  induction h with
  | refl => exact .refl hw
  | settle _ hcut _ ih =>
    rw [tree_settle]
    exact ih.trans (hcut.remains ih.consistent)
  | report r _ ih => exact ih

theorem tracks (h : Edits w w') (hw : Tracks id w) : Tracks id w' := by
  induction h with
  | refl => exact hw
  | report r _ ih => exact ⟨ih.consistent, ⟨ih.follows.mem, ih.follows.lt⟩, ih.sited⟩
  | @settle u t q n gone _ hcut _ ih =>
    refine ⟨?_, ih.follows.settle t n, ?_⟩
    · rw [tree_settle]
      exact hcut.consistent ih.consistent
    · rw [analysis_settle ih.follows, tree_settle]
      rcases ih.sited with hv | ⟨hv, hsited⟩
      · left
        rw [version_subtract_none hv, hv]
      · exact .inr ⟨version_subtract hcut hv, hsited.subtract ih.consistent hcut n⟩

theorem sameBindings (h : Edits w w') (hw : Tracks id w) : SameBindings (w.analysis id) (w'.analysis id) := by
  induction h with
  | refl => exact .of_eq rfl
  | report r _ ih => exact ih
  | @settle u t q n gone hpre _ _ ih =>
    rw [analysis_settle (hpre.tracks hw).follows]
    exact ih.trans (sameBindings_subtract _ t n)

theorem crawled (h : Edits w w') (hw : Tracks id w) (hv : (w.analysis id).version ≠ none) :
    (w'.analysis id).version ≠ none := by
  induction h with
  | refl => exact hv
  | report r _ ih => exact ih
  | @settle u t q n gone hpre hcut _ ih =>
    have htr := hpre.tracks hw
    rw [analysis_settle htr.follows]
    rcases htr.sited with hnone | ⟨hsome, _⟩
    · exact absurd hnone ih
    · rw [version_subtract hcut hsome]
      exact Option.some_ne_none _

/-- An assignment stays in its statement as long as that is attached. -/
theorem statement_kept (h : Edits w w') (hw : w.tree.Consistent) {m s : NodeId}
    (hm : w.tree.kind m = .assignmentExpression) (hp : w.tree.parent m = some s)
    (hs : w.tree.kind s = .expressionStatement) (hroot : w'.tree.Below w'.tree.root s) :
    w'.tree.parent m = some s := by
  induction h with
  | refl => exact hp
  | report r _ ih => exact ih hroot
  | @settle u t q n gone hpre hcut hspares ih =>
    have hr := hpre.remains hw
    have hmlt := lt_size_of_parent hp
    have hslt := hw.parent_lt hp
    rw [tree_settle] at hroot ⊢
    have hroot' := ((hcut.below_root_iff hr.consistent (lt_of_lt_of_le hslt hr.size_le)).mp hroot).1
    have hpu := ih hroot'
    rw [hcut.parent_kept m (lt_of_lt_of_le hmlt hr.size_le) fun hg => ?_, hpu]
    obtain rfl := Option.some.inj (hpu.symm.trans (hcut.parent_of_gone m hg))
    exact hspares.assignment ((hr.kind_eq s hslt).trans hs) m hg ((hr.kind_eq m hmlt).trans hm)

end Edits

/-- A series of prunings is a series of cuts. -/
theorem Trims.edits (h : Trims P X w w') : Edits w w' := by
  induction h with
  | refl => exact .refl
  | settle _ hp _ _ ih =>
    exact .settle ih hp.cut (.of_site hp.site)
  | report r _ ih => exact .report r ih

theorem Trims.kind_eq (h : Trims P X w w') (hw : WellShaped X w.tree) {m : NodeId} (hm : m < w.tree.size) :
    w'.tree.kind m = w.tree.kind m :=
  (h.edits.remains hw.consistent).kind_eq m hm

theorem Trims.tracked (h : Trims P X w w') (hw : Tracked X id w) : Tracked X id w' :=
  have ht := h.edits.tracks hw.tracks
  ⟨h.wellShaped hw.tree, ht.follows, ht.sited⟩

theorem Trims.upToDate (h : Trims P X w w') (hw : Tracked X id w) (hP : P) (hu : UpToDate X id w) :
    UpToDate X id w' := by
  induction h with
  | refl => exact hu
  | report r _ ih => exact ih
  | @settle u t q n gone hpre hp hq hc ih =>
    have htr := hpre.tracked hw
    unfold UpToDate
    rw [analysis_settle htr.follows, tree_settle]
    rcases ih with hv | hcur
    · left
      rw [version_subtract_none hv, hv]
    · exact .inr (hcur.subtract htr.tree.consistent htr.tree.shape hp hq htr.tree.exports (hc hP))

namespace Job

/-! ## One cut -/

theorem ends_detach (ht : w.tree.Consistent) (hp : w.tree.parent n = some q) : (detach n).Ends w
    (fun _ w' => ∃ t gone, Detached w.tree t q n gone ∧ w' = w.settle t n) Never := by
  obtain ⟨t, gone, hok, hd⟩ := detach_eq_ok ht hp
  rw [detach, ends_bind, ends_get, hok]
  exact ⟨t, gone, hd, rfl⟩

theorem ends_removeStatement (ht : w.tree.Consistent) (hp : w.tree.parent n = some q) :
    (removeStatement n).Ends w (fun done w' =>
      (done = true ∧ ∃ t, StatementCut w.tree t q n ∧ w' = w.settle t n) ∨
        done = false ∧ w' = w ∧ (w.tree.kind q).listsStatements = false ∧
          (w.tree.kind q).hasSlot (w.tree.node n).field = false) Never := by
  rw [removeStatement, ends_bind, ends_get]
  rcases removeStatement_eq_ok ht hp with ⟨t, hok, hcut⟩ | ⟨hok, hnone⟩
  · rw [hok]
    exact .inl ⟨rfl, t, hcut, rfl⟩
  · rw [hok]
    exact .inr ⟨rfl, rfl, hnone⟩

theorem ends_removeListMember (ht : w.tree.Consistent) (hp : w.tree.parent n = some q)
    (hk : w.tree.kind q ≠ .importClause) : (removeListMember n).Ends w
      (fun _ w' => ∃ t gone, Detached w.tree t q n gone ∧ w' = w.settle t n) Never := by
  rw [removeListMember, ends_bind, ends_get, hp, ends_bind]
  refine (ends_detach ht hp).imp fun _ w' hw' => ?_
  obtain ⟨t, gone, hd, rfl⟩ := hw'
  have hkq : (w.settle t n).tree.kind q ≠ .importClause := by
    rw [tree_settle, hd.kind_eq q (ht.parent_lt hp)]
    exact hk
  simp only [ends_bind, ends_get, hkq, false_and, if_false, ends_pure]
  exact ⟨t, gone, hd, rfl⟩

/-- The clause of a default import and the word `from` may leave with it. -/
theorem ends_removeListMember_clause {c s : NodeId} (ht : w.tree.Consistent)
    (hc : w.tree.Below w.tree.root c) (hk : w.tree.kind c = .importClause) (hp : w.tree.parent n = some c)
    (hs : w.tree.parent c = some s) : (removeListMember n).Ends w (fun _ w' =>
      ∃ t gone, Detached w.tree t c n gone ∧ (t.namedChildren c ≠ [] ∧ w' = w.settle t n ∨
        t.namedChildren c = [] ∧ ∃ t₂ gone₂, Detached t t₂ s c gone₂ ∧
          (w' = (w.settle t n).settle t₂ c ∨ ∃ word t₃ gone₃, t₂.kind word = .fromWord ∧
            Detached t₂ t₃ s word gone₃ ∧ w' = ((w.settle t n).settle t₂ c).settle t₃ word))) Never := by
  rw [removeListMember, ends_bind, ends_get, hp, ends_bind]
  refine (ends_detach ht hp).imp fun _ w' hw' => ?_
  obtain ⟨t, gone, hd, rfl⟩ := hw'
  have hcons := hd.toCut.consistent ht
  simp only [ends_bind, ends_get, tree_settle]
  split
  · rename_i hempty
    have hcg : c ∉ gone := fun hg => not_below_of_parent ht hc (hd.parent_of_gone c hg) .refl
    have hs' : t.parent c = some s := (hd.parent_kept c (ht.parent_lt hp) hcg).trans hs
    rw [hs']
    simp only [ends_bind]
    have hdetach := ends_detach (w := w.settle t n) (n := c) (q := s) (by rw [tree_settle]; exact hcons)
      (by rw [tree_settle]; exact hs')
    refine hdetach.imp fun _ w₂ hw₂ => ?_
    obtain ⟨t₂, gone₂, hd₂, rfl⟩ := hw₂
    rw [tree_settle] at hd₂
    simp only [ends_get, tree_settle]
    split
    · rename_i word hword
      have hcons₂ := hd₂.toCut.consistent hcons
      have hpw : t₂.parent word = some s :=
        (hcons₂.mem_children s word).mp (List.mem_of_find?_eq_some hword)
      have hkw : t₂.kind word = .fromWord := by simpa using List.find?_some hword
      rw [ends_bind]
      refine (ends_detach (w := (w.settle t n).settle t₂ c) (q := s) (by rw [tree_settle]; exact hcons₂)
        (by rw [tree_settle]; exact hpw)).imp fun _ w₃ hw₃ => ?_
      obtain ⟨t₃, gone₃, hd₃, rfl⟩ := hw₃
      rw [tree_settle] at hd₃
      exact ⟨t, gone, hd, .inr ⟨hempty.2, t₂, gone₂, hd₂, .inr ⟨word, t₃, gone₃, hkw, hd₃, rfl⟩⟩⟩
    · exact ⟨t, gone, hd, .inr ⟨hempty.2, t₂, gone₂, hd₂, .inl rfl⟩⟩
  · rename_i hsome
    have hkc : t.kind c = .importClause := (hd.kind_eq c (ht.parent_lt hp)).trans hk
    exact ⟨t, gone, hd, .inl ⟨fun hempty => hsome ⟨hkc, hempty⟩, rfl⟩⟩

end Job

/-! ## Removals in any consistent tree -/

/-- A place from which a statement cannot be removed. -/
def Tree.Stuck (t : Tree) (n : NodeId) : Prop :=
  ∃ q, t.parent n = some q ∧ (t.kind q).listsStatements = false ∧ (t.kind q).hasSlot (t.node n).field = false

theorem Edits.of_statementCut {t : Tree} (h : StatementCut w.tree t q n) : Edits w (w.settle t n) := by
  obtain ⟨gone, hcut⟩ := h.cut
  refine .settle .refl hcut (.of_site ?_)
  rcases h with ⟨hl, _⟩ | ⟨hl, _⟩
  · exact Kind.isSite_of_listsStatements hl
  · exact Kind.isSite_of_hasSlot hl

namespace Job

/-- The tree was edited, and `n` is no longer in it. -/
def TakesOut (n : NodeId) (w w' : Workspace) : Prop :=
  Edits w w' ∧ w'.report = w.report ∧ ¬ w'.tree.Below w'.tree.root n

theorem TakesOut.edits (h : TakesOut n w w') (ht : w.tree.Consistent) (hn : n < w.tree.size)
    (h' : Edits w' w'') (hr : w''.report = w'.report) : TakesOut n w w'' := by
  have hw' := h.1.remains ht
  refine ⟨h.1.trans h', hr.trans h.2.1, fun hb => h.2.2 ?_⟩
  exact (h'.remains hw'.consistent).attached n (lt_of_lt_of_le hn hw'.size_le) hb

theorem takesOut_of_detached (ht : w.tree.Consistent) {t : Tree} {gone : List NodeId}
    (hd : Detached w.tree t q n gone) (hs : w.tree.Spares q [n]) : TakesOut n w (w.settle t n) := by
  refine ⟨.settle .refl hd.toCut (hs.comma hd.gone_comma), (settle_frame w t n).2.2.2, ?_⟩
  rw [tree_settle]
  exact fun hb => hd.not_below_gone ht (lt_size_of_parent hd.parent_mem) hb hd.node_mem .refl

theorem ends_detach_any (ht : w.tree.Consistent) (n : NodeId) : (detach n).Ends w
    (fun _ w' => ∃ q t gone, Detached w.tree t q n gone ∧ w' = w.settle t n) Whatever := by
  cases hp : w.tree.parent n with
  | none =>
    rw [detach, ends_bind, ends_get]
    simp only [Tree.detach, hp]
    exact trivial
  | some q =>
    refine (ends_detach ht hp).mono (fun _ w' h => ?_) fun _ _ h => h.elim
    obtain ⟨t, gone, hd, rfl⟩ := h
    exact ⟨q, t, gone, hd, rfl⟩

/-- As far as it does not fail, a member leaves, perhaps with an emptied clause and the word `from`. -/
theorem ends_removeListMember_any (ht : w.tree.Consistent)
    (hs : ∀ q, w.tree.parent n = some q → w.tree.Spares q [n]) : (removeListMember n).Ends w (fun _ w' => TakesOut n w w') Whatever := by
  rw [removeListMember, ends_bind, ends_get, ends_bind]
  refine (ends_detach_any ht n).imp fun _ w₁ h₁ => ?_
  obtain ⟨q, t, gone, hd, rfl⟩ := h₁
  have hout := takesOut_of_detached ht hd (hs q hd.parent_mem)
  have hlt := lt_size_of_parent hd.parent_mem
  have ht₁ := (hout.1.remains ht).consistent
  generalize w.settle t n = w₁ at hout ht₁ ⊢
  rw [hd.parent_mem]
  simp only [ends_bind, ends_get]
  split
  · rename_i hclause
    rw [ends_bind]
    refine (ends_detach_any ht₁ q).imp fun _ w₂ h₂ => ?_
    obtain ⟨s, t₂, gone₂, hd₂, rfl⟩ := h₂
    have hout₂ := takesOut_of_detached ht₁ hd₂
      (.of_kind (by rw [hclause.1]; decide) (by rw [hclause.1]; rfl))
    have hall := hout.edits ht hlt hout₂.1 hout₂.2.1
    have ht₂ := (hout₂.1.remains ht₁).consistent
    generalize w₁.settle t₂ q = w₂ at hall ht₂ ⊢
    split
    · simp only [ends_bind, ends_get]
      split
      · rename_i word hword
        have hk : w₂.tree.kind word = .fromWord := by simpa using List.find?_some hword
        rw [ends_bind]
        refine (ends_detach_any ht₂ word).imp fun _ w₃ h₃ => ?_
        obtain ⟨_, t₃, gone₃, hd₃, rfl⟩ := h₃
        have hout₃ := takesOut_of_detached ht₂ hd₃ (.of_kind (by rw [hk]; decide) (by rw [hk]; rfl))
        exact hall.edits ht hlt hout₃.1 hout₃.2.1
      · exact hall
    · exact hall
  · exact hout

theorem ends_removeStatement_any (ht : w.tree.Consistent) (n : NodeId) : (removeStatement n).Ends w
    (fun done w' => (done = true → TakesOut n w w') ∧ (done = false → w' = w ∧ w.tree.Stuck n)) Whatever := by
  cases hp : w.tree.parent n with
  | none =>
    rw [removeStatement, ends_bind, ends_get]
    simp only [Tree.removeStatement, hp]
    exact trivial
  | some q =>
    refine (ends_removeStatement ht hp).mono (fun done w' h => ?_) fun _ _ h => h.elim
    rcases h with ⟨rfl, t, hcut, rfl⟩ | ⟨rfl, rfl, hplace⟩
    · refine ⟨fun _ => ⟨.of_statementCut hcut, (settle_frame w t n).2.2.2, ?_⟩, fun h => (by cases h)⟩
      obtain ⟨gone, hcut⟩ := hcut.cut
      rw [tree_settle]
      exact fun hb => hcut.not_below_gone ht (lt_size_of_parent hp) hb hcut.node_mem .refl
    · exact ⟨fun h => (by cases h), fun _ => ⟨rfl, q, hp, hplace⟩⟩

end Job

/-! ## The construct of a binding -/

/-- A name that the construct of the binding introduced is referenced. -/
def Analysis.Holds (a : Analysis) (b : Binding) : Prop :=
  ∃ name ∈ b.coDeclared, ∃ c, a.own? b.scope name = some c ∧ (a.binding c).path = b.path ∧
    (a.binding c).references ≠ []

/-- The declaration `d` holds no declarator but `p`. -/
def Tree.Sole (t : Tree) (d p : NodeId) : Prop :=
  ∀ c ∈ t.children d, t.kind c = .variableDeclarator → c = p

/-- What keeps the construct of a binding without references in the tree. -/
def Analysis.Declines (a : Analysis) (t : Tree) (b : Binding) : Prop :=
  match b.construct with
  | .declarator => a.Holds b ∨ t.parent b.path = none ∨
      ∃ d, t.parent b.path = some d ∧ t.Sole d b.path ∧ t.Stuck d
  | .function => t.Stuck b.path
  | .importSpecifier | .importDefault => False
  | .other => True

/-- `b` is a binding of an analysis that has crawled, and was found to have no references. -/
structure Listed (id : AnalysisId) (w : Workspace) (β : BindingId) (b : Binding) : Prop where
  tracks : Tracks id w
  crawled : (w.analysis id).version ≠ none
  lt : β < (w.analysis id).bindings.size
  binding : (w.analysis id).binding β = b
  unreferenced : b.references = []

/-- The construct of a binding left the tree, and a removal was recorded. -/
structure Excised (b : Binding) (w w' : Workspace) : Prop where
  removable : b.construct ≠ .other
  placed : b.Placed w.tree
  attached : w.tree.Below w.tree.root b.path
  edits : Edits w w'
  detached : ¬ w'.tree.Below w'.tree.root b.path
  recorded : ∃ r, w'.report = w.report.record r

theorem Excised.kind_ne {b : Binding} (h : Excised b w w') : w.tree.kind b.path ≠ .emptyStatement := by
  intro hk
  have hp := h.placed
  unfold Binding.Placed at hp
  rw [hk] at hp
  cases hc : b.construct with
  | declarator => rw [hc] at hp; cases hp
  | function => rw [hc] at hp; rcases hp with hp | hp <;> cases hp
  | importSpecifier => rw [hc] at hp; cases hp.1
  | importDefault => rw [hc] at hp; cases hp.1
  | other => exact h.removable hc

variable {β : BindingId} {b : Binding}

namespace Listed

theorem placed (h : Listed id w β b) (hroot : w.tree.Below w.tree.root b.path) : b.Placed w.tree := by
  have := (h.tracks.sited.resolve_left h.crawled).2.placed β h.lt
  rw [h.binding] at this
  exact this hroot

theorem edits (h : Listed id w β b) (he : Edits w w') : Listed id w' β b := by
  have hsame := he.sameBindings h.tracks
  refine ⟨he.tracks h.tracks, he.crawled h.tracks h.crawled, hsame.size ▸ h.lt, ?_, h.unreferenced⟩
  rw [hsame.binding_eq (by rw [h.binding, h.unreferenced]), h.binding]

end Listed

theorem Tree.sole_iff {t : Tree} (ht : t.Consistent) {d p : NodeId} (hp : t.parent p = some d)
    (hk : t.kind p = .variableDeclarator) :
    ((t.children d).filter fun c => t.kind c = .variableDeclarator).length = 1 ↔ t.Sole d p := by
  have hmem : p ∈ (t.children d).filter fun c => t.kind c = .variableDeclarator :=
    List.mem_filter.mpr ⟨(ht.mem_children d p).mpr hp, by simpa using hk⟩
  constructor
  · intro hone
    obtain ⟨x, hx⟩ := List.length_eq_one_iff.mp hone
    rw [hx, List.mem_singleton] at hmem
    intro c hc hkc
    have : c ∈ (t.children d).filter fun c => t.kind c = .variableDeclarator :=
      List.mem_filter.mpr ⟨hc, by simpa using hkc⟩
    rw [hx, List.mem_singleton] at this
    rw [this, hmem]
  · intro hsole
    have hsub : ∀ c ∈ (t.children d).filter fun c => t.kind c = .variableDeclarator, c = p := fun c hc => by
      obtain ⟨hc, hkc⟩ := List.mem_filter.mp hc
      exact hsole c hc (by simpa using hkc)
    have hrep := List.eq_replicate_of_mem hsub
    have hle := List.nodup_replicate.mp (hrep ▸ (ht.nodup d).filter _)
    have := List.length_pos_of_mem hmem
    omega

/-- A construct left with what is above it. -/
theorem Job.TakesOut.excised {m : NodeId} (h : Job.TakesOut m w w') (ht : w.tree.Consistent)
    (hother : b.construct ≠ .other) (hplaced : b.Placed w.tree) (hroot : w.tree.Below w.tree.root b.path)
    (hm : w.tree.Below m b.path) (name : String) (what : Removed)
    (n : NodeId) : Excised b w (w'.record name what n) where
  removable := hother
  placed := hplaced
  attached := hroot
  edits := .report _ h.1
  detached hb := by
    have hr := h.1.remains ht
    exact h.2.2 (hr.below_of_below ht (hroot.lt_size ht) hb hm).2
  recorded := ⟨⟨name, what, (w'.tree.node n).line⟩, congrArg (Report.record · _) h.2.1⟩

namespace Job

/-- What `held` of the code tells. -/
theorem holds_iff (a : Analysis) (b : Binding) :
    (b.coDeclared.any fun name => (a.own? b.scope name).any fun other =>
      (a.binding other).path == b.path && (a.binding other).referenced) = true ↔ a.Holds b := by
  simp [Analysis.Holds, List.any_eq_true, Option.any_eq_true, Binding.referenced]

/-- The removal of a declarator. -/
theorem ends_removeDeclarator_any (h : Listed id w β b) (hroot : w.tree.Below w.tree.root b.path)
    (hc : b.construct = .declarator) : (removeDeclarator id b).Ends w (fun done w' =>
      (done = true → Excised b w w') ∧ (done = false → w' = w ∧ (w.analysis id).Declines w.tree b))
      Whatever := by
  have ht := h.tracks.consistent
  have hother : b.construct ≠ .other := by rw [hc]; decide
  have hplaced := h.placed hroot
  have hk : w.tree.kind b.path = .variableDeclarator := by
    rw [Binding.Placed, hc] at hplaced
    exact hplaced
  have hdeclines : ∀ {R}, ((w.analysis id).Holds b ∨ w.tree.parent b.path = none ∨
      ∃ d, w.tree.parent b.path = some d ∧ w.tree.Sole d b.path ∧ w.tree.Stuck d) →
      (false = true → R) ∧ (false = false → w = w ∧ (w.analysis id).Declines w.tree b) := fun h =>
    ⟨fun h => (by cases h), fun _ => ⟨rfl, by rw [Analysis.Declines, hc]; exact h⟩⟩
  rw [removeDeclarator, ends_bind, ends_get]
  simp only []
  split
  · rename_i hheld
    exact hdeclines (.inl ((holds_iff _ b).mp hheld))
  · split
    · rename_i hnone
      exact hdeclines (.inr (.inl hnone))
    · rename_i d hp
      refine ends_ite (fun hone => ?_) fun _ => ?_
      · rw [ends_bind]
        refine (ends_removeStatement_any ht d).imp fun done w' hdone => ?_
        cases done with
        | true =>
          exact ⟨fun _ => (hdone.1 rfl).excised ht hother hplaced hroot (.of_parent hp) _ _ _, fun h => (by cases h)⟩
        | false =>
          obtain ⟨rfl, hstuck⟩ := hdone.2 rfl
          exact hdeclines (.inr (.inr ⟨d, hp, (sole_iff ht hp hk).mp hone, hstuck⟩))
      · rw [ends_bind]
        refine (ends_removeListMember_any ht fun _ _ => .of_kind (by rw [hk]; decide) (by rw [hk]; rfl)).imp fun _ w' hout => ?_
        exact ⟨fun _ => hout.excised ht hother hplaced hroot .refl _ _ _, fun h => (by cases h)⟩

/-- As far as it does not fail, a removal takes the construct out, or declines and changes nothing. -/
theorem ends_removeBinding_any (h : Listed id w β b) : (removeBinding id b).Ends w (fun done w' =>
    (done = true → Excised b w w') ∧ (done = false → w' = w ∧
      (w.tree.Below w.tree.root b.path → (w.analysis id).Declines w.tree b))) Whatever := by
  have ht := h.tracks.consistent
  rw [removeBinding]
  refine ends_ite (fun hother => ?_) fun hother => ?_
  · exact ⟨fun h => (by cases h), fun _ => ⟨rfl, fun _ => by rw [Analysis.Declines, hother]; trivial⟩⟩
  rw [ends_bind, ends_get]
  refine ends_ite (fun hout => ?_) fun hin => ?_
  · refine ⟨fun h => (by cases h), fun _ => ⟨rfl, fun hroot => ?_⟩⟩
    rw [(contains_iff_below ht).mpr hroot] at hout
    cases hout
  have hroot : w.tree.Below w.tree.root b.path := (contains_iff_below ht).mp (by simpa using hin)
  have hplaced := h.placed hroot
  have hmember : (∀ q, w.tree.parent b.path = some q → w.tree.Spares q [b.path]) →
      (removeImport b).Ends w (fun done w' => (done = true → Excised b w w') ∧ (done = false → w' = w ∧
        (w.tree.Below w.tree.root b.path → (w.analysis id).Declines w.tree b))) Whatever := fun hs => by
    rw [removeImport, ends_bind]
    refine (ends_removeListMember_any ht hs).imp fun _ w' hout => ?_
    exact ⟨fun _ => hout.excised ht hother hplaced hroot .refl _ _ _, fun h => (by cases h)⟩
  cases hc : b.construct with
  | declarator =>
    refine (ends_removeDeclarator_any h hroot hc).imp fun done w' hdone => ?_
    exact ⟨hdone.1, fun hd => ⟨(hdone.2 hd).1, fun _ => (hdone.2 hd).2⟩⟩
  | function =>
    rw [removeFunction, ends_bind]
    refine (ends_removeStatement_any ht b.path).imp fun done w' hdone => ?_
    cases done with
    | true => exact ⟨fun _ => (hdone.1 rfl).excised ht hother hplaced hroot .refl _ _ _, fun h => (by cases h)⟩
    | false =>
      refine ⟨fun h => (by cases h), fun _ => ⟨(hdone.2 rfl).1, fun _ => ?_⟩⟩
      rw [Analysis.Declines, hc]
      exact (hdone.2 rfl).2
  | importSpecifier =>
    rw [Binding.Placed, hc] at hplaced
    exact hmember fun _ _ => .of_kind (by rw [hplaced.1]; decide) (by rw [hplaced.1]; rfl)
  | importDefault =>
    rw [Binding.Placed, hc] at hplaced
    obtain ⟨_, clause, _, hclause, hk, _⟩ := hplaced
    refine hmember fun q hq => ?_
    obtain rfl := Option.some.inj (hclause.symm.trans hq)
    exact .of_site (by rw [hk]; rfl)
  | other => exact absurd hc hother

theorem ends_removeStatement_stuck (h : w.tree.Stuck n) :
    (removeStatement n).Ends w (fun done w' => done = false ∧ w' = w) Never := by
  obtain ⟨q, hp, hlist, hslot⟩ := h
  rw [removeStatement, ends_bind, ends_get]
  simp [Tree.removeStatement, hp, hlist, hslot]

/-- What declines, declines without failing. -/
theorem ends_removeBinding_declines (ht : w.tree.Consistent)
    (hplaced : w.tree.Below w.tree.root b.path → b.Placed w.tree)
    (h : w.tree.Below w.tree.root b.path → (w.analysis id).Declines w.tree b) :
    (removeBinding id b).Ends w (fun done w' => done = false ∧ w' = w) Never := by
  rw [removeBinding]
  refine ends_ite (fun _ => ⟨rfl, rfl⟩) fun hother => ?_
  rw [ends_bind, ends_get]
  refine ends_ite (fun _ => ⟨rfl, rfl⟩) fun hin => ?_
  have hroot : w.tree.Below w.tree.root b.path := (contains_iff_below ht).mp (by simpa using hin)
  replace hplaced := hplaced hroot
  replace h := h hroot
  unfold Analysis.Declines at h
  unfold Binding.Placed at hplaced
  cases hc : b.construct with
  | declarator =>
    rw [hc] at h hplaced
    change (removeDeclarator id b).Ends w _ Never
    rw [removeDeclarator, ends_bind, ends_get]
    simp only []
    split
    · exact ⟨rfl, rfl⟩
    · rename_i hheld
      split
      · exact ⟨rfl, rfl⟩
      · rename_i d hp
        obtain ⟨d', hd', hsole, hstuck⟩ :=
          (h.resolve_left fun hh => hheld ((holds_iff _ b).mpr hh)).resolve_left fun hn => by
            rw [hp] at hn
            cases hn
        obtain rfl := Option.some.inj (hp.symm.trans hd')
        rw [if_pos ((sole_iff ht hp hplaced).mpr hsole), ends_bind]
        refine (ends_removeStatement_stuck hstuck).imp fun done w' hdone => ?_
        obtain ⟨rfl, rfl⟩ := hdone
        exact ⟨rfl, rfl⟩
  | function =>
    rw [hc] at h
    change (removeFunction b).Ends w _ Never
    rw [removeFunction, ends_bind]
    refine (ends_removeStatement_stuck h).imp fun done w' hdone => ?_
    obtain ⟨rfl, rfl⟩ := hdone
    exact ⟨rfl, rfl⟩
  | importSpecifier =>
    rw [hc] at h
    exact h.elim
  | importDefault =>
    rw [hc] at h
    exact h.elim
  | other => exact absurd hc hother

end Job

end DeadCode
