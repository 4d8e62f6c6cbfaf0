import Mathlib.Logic.Relation
import DeadCode.Proofs.Engine.Clips
import DeadCode.Proofs.Engine.Declarators

/-!
Removals one by one, in any order. A legal step removes one construct or one dangling assignment, told from a new
crawl of the tree. What such a step can be is what is `Removable` (`LegalStep.loses`, `Removable.legalStep`). What is
removable stays so while less is left of the tree (`Removable.within`); so of a tree in which no step is legal nothing
is lost on any other way (`Reached.within`), and all such trees hold the same nodes (`normal_unique`).
-/

namespace DeadCode

open DeadCode.Tree Workspace

/-- A workspace with one analysis, which has just crawled. -/
def Workspace.surveyed (t : Tree) : Workspace :=
  { tree := t, followers := [.analysis 0], analyses := #[t.crawled] }

/-- The construct of one unreferenced binding is taken out, or the statement of one dangling assignment. -/
inductive LegalStep (t : Tree) : Tree → Prop
  | excise {β : BindingId} {w' : Workspace} : β < t.crawled.bindings.size →
      (t.crawled.binding β).references = [] →
      Job.removeBinding 0 (t.crawled.binding β) (.surveyed t) = .ok true w' → LegalStep t w'.tree
  | assign {n : NodeId} {name : String} {w' : Workspace} : t.contains n = true → t.DanglesAt n name →
      ¬ t.Spells name → Job.removeCandidate name n (.surveyed t) = .ok true w' → LegalStep t w'.tree

namespace Tree

/-- What is assumed of the places of statements: where there are several declarators, the declaration can be removed
as a whole or is an exported one. -/
structure Orderly (t : Tree) : Prop where
  exports : t.ExportsAtTop
  declarations : ∀ D p q, t.Below t.root D → t.parent p = some D → t.kind p = .variableDeclarator →
    t.parent q = some D → t.kind q = .variableDeclarator → q ≠ p →
    t.Loose D ∨ ∃ s, t.kind s = .exportStatement ∧ t.child? s .declaration = some D
  expressions : ∀ s, t.Below t.root s → t.kind s = .expressionStatement → t.Loose s
  tokens : t.PlainTokens

/-- What `Orderly` says of one node. -/
@[mk_iff]
structure OrderlyAt (t : Tree) (n : NodeId) : Prop where
  exports : t.kind n = .exportStatement → t.parent n = some t.root
  declarations : ∀ p ∈ t.children n, t.kind p = .variableDeclarator →
    ∀ q ∈ t.children n, t.kind q = .variableDeclarator → q ≠ p →
      t.Loose n ∨ ∃ s ∈ t.parent n, t.kind s = .exportStatement ∧ t.child? s .declaration = some n
  expressions : t.kind n = .expressionStatement → t.Loose n
  tokens : t.kind n = .comma ∨ t.kind n = .fromWord → (t.node n).named = false

instance (t : Tree) (n : NodeId) : Decidable (t.Loose n) :=
  decidable_of_iff (∃ q ∈ t.parent n, (t.kind q).listsStatements = true ∨
    (t.kind q).hasSlot (t.node n).field = true) Iff.rfl

instance (t : Tree) (n : NodeId) : Decidable (t.OrderlyAt n) := decidable_of_iff _ (orderlyAt_iff t n).symm

theorem orderly_iff {t : Tree} (ht : t.Consistent) : t.Orderly ↔ ∀ n ∈ t.walk, t.OrderlyAt n := by
  constructor
  · intro ho n hn
    have hroot := (mem_walk_iff ht).mp hn
    refine ⟨ho.exports n hroot, fun p hp hkp q hq hkq hne => ?_, ho.expressions n hroot, ho.tokens n hroot⟩
    refine (ho.declarations n p q hroot ((ht.mem_children n p).mp hp) hkp ((ht.mem_children n q).mp hq) hkq
      hne).imp_right ?_
    rintro ⟨s, hk, hs⟩
    exact ⟨s, parent_of_child? ht hs, hk, hs⟩
  · intro hall
    have at' : ∀ n, t.Below t.root n → t.OrderlyAt n := fun n hn => hall n ((mem_walk_iff ht).mpr hn)
    refine ⟨fun s hs => (at' s hs).exports, fun D p q hD hp hkp hq hkq hne => ?_,
      fun s hs => (at' s hs).expressions, fun c hc => (at' c hc).tokens⟩
    exact ((at' D hD).declarations p ((ht.mem_children D p).mpr hp) hkp q ((ht.mem_children D q).mpr hq) hkq
      hne).imp_right (Exists.imp fun _ hs => hs.2)

/-- Nothing refers to the declaration, nor to any other by the same declarator. -/
structure Dead (t : Tree) (d : Declaration NodeId) : Prop where
  bound : d ∈ t.bindings
  unused : t.Unused True d
  siblings : d.construct = .declarator → ∀ e ∈ t.bindings, e.path = d.path → t.Unused True e

/-- The construct of the declaration stands where the reducer can remove it. -/
def Frees (t : Tree) (d : Declaration NodeId) : Prop :=
  match d.construct with
  | .declarator => ∀ D, t.parent d.path = some D → t.Sole D d.path → ¬ t.Stuck D
  | .function => ¬ t.Stuck d.path
  | .importSpecifier | .importDefault => True
  | .other => False

/-- The node can be removed by a legal step. -/
inductive Removable (t : Tree) : NodeId → Prop
  | construct {d : Declaration NodeId} : t.Dead d → t.Frees d → Removable t d.path
  | statement {n s : NodeId} {name : String} : t.contains n = true → t.DanglesAt n name → ¬ t.Spells name →
      t.parent n = some s → ¬ t.Stuck s → Removable t s

theorem StatementCut.not_stuck {t t' : Tree} {q n : NodeId} (h : StatementCut t t' q n) : ¬ t.Stuck n := by
  rintro ⟨q', hq', hlists, hslot⟩
  obtain ⟨gone, hcut⟩ := h.cut
  obtain rfl := Option.some.inj (hq'.symm.trans hcut.parent_mem)
  rcases h with ⟨hl, _⟩ | ⟨hl, _⟩
  · rw [hlists] at hl
    cases hl
  · rw [hslot] at hl
    cases hl

theorem Loose.not_stuck {t : Tree} {n : NodeId} (h : t.Loose n) : ¬ t.Stuck n := by
  rintro ⟨q, hq, hlists, hslot⟩
  obtain ⟨q', hq', hl⟩ := h
  obtain rfl := Option.some.inj (hq.symm.trans hq')
  rw [hlists, hslot] at hl
  simp at hl

end Tree

variable {t t' t₀ a b : Tree} {id : AnalysisId} {w w' u : Workspace} {ns : List NodeId} {β : BindingId}
  {n p : NodeId} {d : Declaration NodeId}

theorem analysis_surveyed (t : Tree) : (surveyed t).analysis 0 = t.crawled := rfl

theorem tracked_surveyed {X : Prop} (hw : WellShaped X t) : Tracked X 0 (.surveyed t) :=
  ⟨hw, ⟨by simp [surveyed], by simp [surveyed]⟩, .inr ⟨rfl, sited_crawl hw.consistent {}⟩⟩

theorem upToDate_surveyed {X : Prop} (ht : t.Consistent) : UpToDate X 0 (.surveyed t) := .inr (current_crawl ht {})

theorem listed_surveyed (hw : WellShaped True t) (hβ : β < t.crawled.bindings.size)
    (hrefs : (t.crawled.binding β).references = []) :
    Listed 0 (.surveyed t) β (t.crawled.binding β) :=
  ⟨(tracked_surveyed hw).tracks, Option.some_ne_none _, hβ, rfl, hrefs⟩

/-! ## A step takes out what is removable -/

/-- The declaration of a doomed binding that the reducer does not keep for its other names. -/
theorem Doomed.dead {b : Binding} (h : Doomed True id w β b) (hu : UpToDate True id w)
    (hroot : w.tree.Below w.tree.root b.path) (hfree : b.construct = .declarator → ¬ (w.analysis id).Holds b) :
    ∃ d, w.tree.Dead d ∧ d.path = b.path ∧ d.construct = b.construct := by
  have ht := h.tracked.tree.consistent
  obtain ⟨d, hd, hdesc, hunused⟩ := h.declaration hu hroot
  refine ⟨d, ⟨hd, hunused, fun hc e he hpath => ?_⟩, hdesc.path.symm, hdesc.construct.symm⟩
  have hc : b.construct = .declarator := hdesc.construct.trans hc
  have hp := hpath.trans hdesc.path.symm
  have hk := (declarator_of_construct ht (mem_declarations_of_binding hd) (hdesc.construct ▸ hc)).1
  refine h.names_unused hu hroot hc (hfree hc) e (hp ▸ ?_) he
  exact mem_declarationsOf_path ht (mem_declarations_of_binding he) (hpath ▸ hk)

theorem Drops.frees {b : Binding} (hd : Drops id w b ns u) (hpath : d.path = b.path)
    (hc : d.construct = b.construct) : w.tree.Frees d := by
  unfold Frees
  rw [hc, hpath]
  cases hd with
  | function hc hcut =>
    rw [hc]
    exact hcut.not_stuck
  | declaration hc _ hp _ hcut =>
    rw [hc]
    intro D hD _
    obtain rfl := Option.some.inj (hD.symm.trans hp)
    exact hcut.not_stuck
  | declarator hc _ hmany hd =>
    rw [hc]
    intro D hD hsole
    obtain rfl := Option.some.inj (hD.symm.trans hd.parent_mem)
    exact absurd hsole hmany
  | specifier hc | default hc | clause hc | word hc =>
    rw [hc]
    trivial

theorem LegalStep.loses (h : LegalStep t t') (hw : WellShaped True t) (hl : t.Local) (hx : t.ExportsAtTop)
    (htokens : t.PlainTokens) : ∃ p, t.Removable p ∧ t.Loses t' p := by
  have hu : UpToDate True 0 (.surveyed t) := upToDate_surveyed hw.consistent
  cases h with
  | excise hβ hrefs hrun =>
    have hlisted := listed_surveyed hw hβ hrefs
    have hdoomed := hlisted.doomed (tracked_surveyed hw)
    obtain ⟨⟨_, hdrops⟩, hroot⟩ := (Job.ends_removeBinding_drops hdoomed).of_ok hrun
    obtain ⟨ns, u, r, hd, rfl⟩ := hdrops rfl
    have hguard := (Job.ends_removeBinding_spares 0 _).of_ok hrun rfl
    obtain ⟨d, hdead, hpath, hc⟩ := hdoomed.dead hu (hroot rfl) hguard
    exact ⟨d.path, .construct hdead (hd.frees hpath hc),
      hpath ▸ hd.loses hdoomed (hroot rfl) hl hu hx htokens⟩
  | assign hn hdangles hspells hrun =>
    have hends := ends_removeCandidate_assigns (P := True) (w := .surveyed t) hw fun _ => hdangles.1
    obtain ⟨⟨_, s, q, t', hs, hroot, _, hcut, rfl⟩ | ⟨hdone, _⟩, _⟩ := hends.of_ok hrun
    · refine ⟨s, .statement hn hdangles hspells hs hcut.not_stuck, ?_⟩
      change t.Loses (settle _ _ _).tree s
      rw [tree_settle]
      exact loses_of_assignment (w := .surveyed t) hw hl hx hdangles.1 hs hroot hcut
    · cases hdone

/-! ## What is removable can be removed -/

/-- A crawl lists what is dead, and nothing makes the reducer keep it. -/
theorem Tree.Dead.listed (hw : WellShaped True t) (h : t.Dead d) : ∃ β, β < t.crawled.bindings.size ∧
    (t.crawled.binding β).references = [] ∧ (t.crawled.binding β).path = d.path ∧
      (t.crawled.binding β).construct = d.construct ∧
      (d.construct = .declarator → ¬ t.crawled.Holds (t.crawled.binding β)) := by
  have ht := hw.consistent
  have hr := (reflects_crawl ht {}).records
  obtain ⟨β, hβ, hdesc⟩ := hr.record d h.bound
  obtain ⟨hlt, _⟩ := hr.declared hβ
  refine ⟨β, hlt, h.unused.references ht {} hβ, hdesc.path, hdesc.construct, fun hc hholds => ?_⟩
  obtain ⟨name, _, c, hown, hpath, hrefs⟩ := hholds
  have hclt : c < t.crawled.bindings.size :=
    (sited_crawl ht {}).names_lt _ _ (Table.mem_of_get? hown)
  obtain ⟨e, he, hid⟩ := (records_crawl ht {}).2 c hclt
  obtain ⟨hedesc, hdeclared⟩ := hr.describes he hclt hid
  have hunused := h.siblings hc e he (hedesc.path.symm.trans (hpath.trans hdesc.path))
  exact hrefs (hunused.references ht {} hdeclared)

/-- What keeps a construct in the tree does not keep one that is dead and free. -/
theorem Tree.Frees.not_declines (hw : WellShaped True t) (hd : t.Dead d) (hf : t.Frees d) {b : Binding}
    (hpath : b.path = d.path) (hc : b.construct = d.construct)
    (hfree : d.construct = .declarator → ¬ t.crawled.Holds b) : ¬ t.crawled.Declines t b := by
  unfold Analysis.Declines
  unfold Frees at hf
  rw [hc, hpath]
  cases hcd : d.construct with
  | declarator =>
    rw [hcd] at hf
    rintro (hholds | hnone | ⟨D, hD, hsole, hstuck⟩)
    · exact hfree hcd hholds
    · have hk := (declarator_of_construct hw.consistent (mem_declarations_of_binding hd.bound) hcd).1
      have hroot := path_attached hw.consistent (mem_declarations_of_binding hd.bound)
      rw [(parent_eq_none_iff hw.consistent hroot).mp hnone, hw.shape.root_program] at hk
      cases hk
    · exact hf D hD hsole hstuck
  | function =>
    rw [hcd] at hf
    exact hf
  | importSpecifier | importDefault => exact not_false
  | other =>
    rw [hcd] at hf
    exact hf.elim

theorem Tree.Removable.legalStep (h : t.Removable p) (hw : WellShaped True t) : ∃ t', LegalStep t t' := by
  cases h with
  | @construct d hdead hfrees =>
    obtain ⟨β, hβ, hrefs, hpath, hc, hfree⟩ := hdead.listed hw
    have hlisted := listed_surveyed hw hβ hrefs
    obtain ⟨done, w', hrun, _⟩ := (Job.ends_removeBinding (hlisted.doomed (tracked_surveyed hw))).returns
    cases done with
    | true => exact ⟨_, .excise hβ hrefs hrun⟩
    | false =>
      have hroot := path_attached hw.consistent (mem_declarations_of_binding hdead.bound)
      obtain ⟨_, hdeclines⟩ := ((Job.ends_removeBinding_any hlisted).of_ok hrun).2 rfl
      exact absurd (hdeclines (hpath ▸ hroot)) (hfrees.not_declines hw hdead hpath hc hfree)
  | @statement n _ name hn hdangles hspells hs hloose =>
    have hroot : t.Below t.root p :=
      ((contains_iff_below hw.consistent).mp hn).root_of_below hw.consistent (.of_parent hs)
    have hends := ends_removeCandidate_assigns (P := True) (w := .surveyed t) hw fun _ => hdangles.1
    obtain ⟨done, w', hrun, hturn, _⟩ := hends.returns
    rcases hturn with ⟨rfl, _⟩ | ⟨_, _, hstuck⟩
    · exact ⟨_, .assign hn hdangles hspells hrun⟩
    · exact absurd (hstuck p hs hroot) hloose

/-! ## What any number of steps leave -/

theorem Tree.Residue.plainTokens (h : Residue t₀ t) (ht : t₀.PlainTokens) : t.PlainTokens := fun c hc hk => by
  have hlt := h.old_of_kind hc (by rcases hk with hk | hk <;> rw [hk] <;> decide)
  rw [h.remains.kind_eq c hlt] at hk
  rw [h.tokens c hlt]
  exact ht c (h.remains.attached c hlt hc) hk

/-- A residue in which what was exported still is, and in which nothing has lost its last part. -/
structure Tree.Reached (t₀ t : Tree) : Prop where
  residue : Residue t₀ t
  exported : ∀ r ∈ t₀.exported, r ∈ t.exported
  parts : ∀ g, g < t₀.size → t.Below t.root g → (t₀.kind g).holdsParts = true → t₀.parts g ≠ [] →
    t.parts g ≠ []

section Reached

variable (hw : WellShaped True t₀) (hl : t₀.Local) (ho : t₀.Orderly)

include hw

theorem Tree.Reached.refl (hl : t₀.Local) : Reached t₀ t₀ := ⟨.refl hw hl, fun _ h => h, fun _ _ _ _ h => h⟩

theorem Tree.Reached.loses (h : Reached t₀ t) (hs : t.Loses t' p) : Reached t₀ t' where
  residue := h.residue.trans hs.residue hw.consistent
  exported r hr := hs.exported r (h.exported r hr)
  parts g hlt hb hk hsome := by
    have hltt := lt_of_lt_of_le hlt h.residue.remains.size_le
    have hroot := hs.residue.remains.attached g hltt hb
    exact hs.parts g hb hltt (by rw [h.residue.remains.kind_eq g hlt]; exact hk) (h.parts g hlt hroot hk hsome)

include ho

theorem Tree.Reached.of_step (h : Reached t₀ t) (hs : LegalStep t t') :
    ∃ p, t.Removable p ∧ t.Loses t' p ∧ Reached t₀ t' := by
  obtain ⟨p, hp, hloses⟩ := hs.loses h.residue.shaped h.residue.inner (h.residue.exportsAtTop ho.exports)
    (h.residue.plainTokens ho.tokens)
  exact ⟨p, hp, hloses, h.loses hw hloses⟩

theorem Tree.Reached.steps (h : Reached t₀ t) (hs : Relation.ReflTransGen LegalStep t t') : Reached t₀ t' := by
  induction hs with
  | refl => exact h
  | tail _ hs ih =>
    obtain ⟨_, _, _, hr⟩ := ih.of_step hw ho hs
    exact hr

/-! ## What is removable stays so -/

/-- A declarator that can be removed by itself or with its declaration where more is left, can be so where less is. -/
theorem Tree.Reached.frees_declarator (ha : Reached t₀ a) (hb : Reached t₀ b) (hd : a.Dead d) (hf : a.Frees d)
    (hc : d.construct = .declarator) (hp : b.Below b.root d.path) {D : NodeId} (hD : b.parent d.path = some D)
    (hstuck : b.Stuck D) : False := by
  have ht := hw.consistent
  have hd₀ := ((ha.residue.bindings d).mp hd.bound).1
  have hroot := path_attached ht (mem_declarations_of_binding hd₀)
  have hlt := hroot.lt_size ht
  have hk := (declarator_of_construct ht (mem_declarations_of_binding hd₀) hc).1
  have hpa := path_attached ha.residue.shaped.consistent (mem_declarations_of_binding hd.bound)
  have hD₀ : t₀.parent d.path = some D := (hb.residue.remains.parent_eq _ hlt hp) ▸ hD
  have hDa : a.parent d.path = some D := (ha.residue.remains.parent_eq _ hlt hpa).trans hD₀
  have hDlt := ht.parent_lt hD₀
  have hDroot := hroot.root_of_below ht (.of_parent hD₀)
  have hholds := (hw.shape.keyword d.path D hroot hk hD₀).1
  have hstuck₀ := (hb.residue.stuck_iff ht hDlt (hp.root_of_below hb.residue.shaped.consistent (.of_parent hD))).mp
    hstuck
  have hDra := hpa.root_of_below ha.residue.shaped.consistent (.of_parent hDa)
  by_cases hsole : ∀ q, t₀.parent q = some D → t₀.kind q = .variableDeclarator → q = d.path
  · unfold Frees at hf
    rw [hc] at hf
    refine hf D hDa (fun q hq hkq => ?_) ((ha.residue.stuck_iff ht hDlt hDra).mpr hstuck₀)
    have hpq := (ha.residue.shaped.consistent.mem_children D q).mp hq
    obtain ⟨hqlt, hqroot⟩ := ha.residue.old_child hDlt hDra (Kind.not_listed_of_holdsDeclarators hholds).2.1 hpq
    exact hsole q ((ha.residue.remains.parent_eq q hqlt hqroot) ▸ hpq) ((ha.residue.remains.kind_eq q hqlt) ▸ hkq)
  · simp only [not_forall] at hsole
    obtain ⟨q, hq, hkq, hne⟩ := hsole
    rcases ho.declarations D d.path q hDroot hD₀ hk hq hkq hne with hloose | ⟨s, hks, hsD⟩
    · exact hloose.not_stuck hstuck₀
    · -- an exported declaration refers to all its names
      have hs := hDroot.root_of_below ht (.of_parent (parent_of_child? ht hsD))
      exact hd.unused.2 trivial _ (ha.exported _ (exported_of_declarator hw ho.exports hs hks hsD hd₀ hc hD₀)) rfl

theorem Tree.Removable.within (ha : Reached t₀ a) (hb : Reached t₀ b) (hin : t₀.Within b a) (h : a.Removable p)
    (hp : b.Below b.root p) : b.Removable p := by
  have ht := hw.consistent
  have hra := ha.residue
  have hrb := hb.residue
  cases h with
  | @construct d hdead hfrees =>
    have hd₀ := ((hra.bindings d).mp hdead.bound).1
    have hlt := (path_attached ht (mem_declarations_of_binding hd₀)).lt_size ht
    have hexported : ∀ r ∈ b.exported, r ∈ a.exported := fun r hr => ha.exported r (hrb.exported r hr)
    refine .construct ⟨(hrb.bindings d).mpr ⟨hd₀, hp⟩, hin.unused ht hra hrb hexported hdead.unused,
      fun hc e he hpath => hin.unused ht hra hrb hexported (hdead.siblings hc e (hin.bindings ht hra hrb he) hpath)⟩ ?_
    have hfrees' := hfrees
    unfold Frees at hfrees' ⊢
    cases hc : d.construct with
    | declarator => exact fun D hD _ hstuck => ha.frees_declarator hw ho hb hdead hfrees hc hp hD hstuck
    | function =>
      rw [hc] at hfrees'
      have hpa := path_attached hra.shaped.consistent (mem_declarations_of_binding hdead.bound)
      exact fun hs => hfrees' ((hra.stuck_iff ht hlt hpa).mpr ((hrb.stuck_iff ht hlt hp).mp hs))
    | importSpecifier | importDefault => trivial
    | other =>
      rw [hc] at hfrees'
      exact hfrees'
  | @statement n _ name hn hdangles hspells hs hloose =>
    have hna := (contains_iff_below hra.shaped.consistent).mp hn
    have hnlt := hra.old_of_kind hna (by rw [hdangles.1.kind]; decide)
    have hs₀ : t₀.parent n = some p := (hra.remains.parent_eq n hnlt hna) ▸ hs
    have hplt := ht.parent_lt hs₀
    have hpa := hna.root_of_below hra.shaped.consistent (.of_parent hs)
    obtain ⟨s, hs', hks⟩ := hdangles.1.statement
    obtain rfl := Option.some.inj (hs.symm.trans hs')
    rw [hra.remains.kind_eq p hplt] at hks
    have hnb := hrb.assignment_left ht hplt hks hp hs₀
    refine .statement ((contains_iff_below hrb.shaped.consistent).mpr hnb) (hin.dangles ht hra hrb hdangles hnb hnlt)
      (fun hsp => hspells (hin.spells ht hra hrb hsp)) ((hrb.remains.parent_eq n hnlt hnb).trans hs₀) fun hst => ?_
    exact hloose ((hra.stuck_iff ht hplt hpa).mpr ((hrb.stuck_iff ht hplt hp).mp hst))

/-! ## Trees in which no step is legal -/

theorem Tree.solid_of_part {g c : NodeId} (hc : c ∈ t₀.parts g)
    (hg : t₀.Below t₀.root g) : t₀.Solid c := by
  have ht := hw.consistent
  obtain ⟨hc, hpart⟩ := List.mem_filter.mp hc
  have hp := (ht.mem_children g c).mp hc
  refine ⟨lt_size_of_parent hp, ?_⟩
  have token : t₀.kind c = .comma ∨ t₀.kind c = .fromWord → False := fun hkc => by
    have hplain := ho.tokens c (.step hp hg) hkc
    split at hpart
    · rw [hplain] at hpart
      cases hpart
    · rw [decide_eq_true_eq] at hpart
      rcases hkc with h | h <;> rw [h] at hpart <;> cases hpart
  exact ⟨fun h => token (.inl h), fun h => token (.inr h)⟩

/-- A step takes nothing from a tree in which less is left and no step is legal. -/
theorem Tree.Reached.within_step (ha : Reached t₀ a) (hb : Reached t₀ b) (hin : t₀.Within b a)
    (hnone : ∀ t, ¬ LegalStep b t) {a' : Tree} (hs : LegalStep a a') : t₀.Within b a' := by
  have ht := hw.consistent
  have hra := ha.residue
  have hrb := hb.residue
  obtain ⟨p, hp, hloses, _⟩ := ha.of_step hw ho hs
  have hout : ¬ b.Below b.root p := fun hpb => by
    obtain ⟨t, hstep⟩ := (hp.within hw ho ha hb hin hpb).legalStep hrb.shaped
    exact hnone t hstep
  intro m hsolid hm
  by_contra hgone
  have hma := hin m hsolid hm
  have hlta := lt_of_lt_of_le hsolid.1 hra.remains.size_le
  obtain ⟨g, hg, hgm⟩ := hloses.lost m ⟨hlta, by rw [hra.remains.kind_eq m hsolid.1]; exact hsolid.2⟩ hma hgone
  -- what stood above the lost node is left in `b`
  have hgm₀ := hra.remains.below ht hsolid.1 hma hgm
  have hgb := (hrb.remains.below_of_below ht hsolid.1 hm hgm₀).2
  rcases hg with rfl | hlast
  · exact hout hgb
  · have hg₀ := (hrb.remains.attached m hsolid.1 hm).root_of_below ht hgm₀
    have hglt := hg₀.lt_size ht
    have hga := hma.root_of_below hra.shaped.consistent hgm
    have hk := hlast.holds
    rw [hra.remains.kind_eq g hglt] at hk
    have hmem := fun c => hra.mem_parts_iff (c := c) ht hglt hga hk
    have hsome := hb.parts g hglt hgb hk (List.ne_nil_of_mem ((hmem p).mp hlast.mem).1)
    obtain ⟨c, hc⟩ := List.exists_mem_of_ne_nil _ hsome
    obtain ⟨hc, hcb⟩ := (hrb.mem_parts_iff ht hglt hgb hk).mp hc
    have hca : a.Below a.root c := hin c (solid_of_part hw ho hc hg₀) hcb
    exact hout (hlast.alone c ((hmem c).mpr ⟨hc, hca⟩) ▸ hcb)

theorem within_of_steps (hl : t₀.Local) (hb : Reached t₀ b) (hnone : ∀ t, ¬ LegalStep b t)
    (h : Relation.ReflTransGen LegalStep t₀ a) : t₀.Within b a := by
  induction h with
  | refl => exact fun m hm hroot => hb.residue.remains.attached m hm.1 hroot
  | tail hsteps hs ih => exact ((Reached.refl hw hl).steps hw ho hsteps).within_step hw ho hb ih hnone hs

/-- No step is legal in a stable tree. -/
theorem Tree.Stable.normal (hb : Reached t₀ b) (hs : b.Stable) (t : Tree) : ¬ LegalStep b t := fun hstep => by
  have ht := hw.consistent
  have hwb := hb.residue.shaped
  obtain ⟨p, hp, _⟩ := hb.of_step hw ho hstep
  cases hp with
  | @construct d hdead hfrees =>
    obtain ⟨β, hβ, hrefs, hpath, hc, hfree⟩ := hdead.listed hwb
    exact hfrees.not_declines hwb hdead hpath hc hfree (hs.declines hwb.consistent hβ hrefs)
  | @statement n _ name hn hdangles hspells _ _ =>
    obtain ⟨m, s, hlast, hms, hstuck⟩ := (hs.assignments name ⟨n, hn, hdangles⟩).resolve_left hspells
    obtain ⟨s', hs', hks⟩ := hlast.danglesAt.1.statement
    obtain rfl := Option.some.inj (hms.symm.trans hs')
    have hroot := (hlast.attached hwb.consistent).root_of_below hwb.consistent (.of_parent hms)
    have hlt := hb.residue.old_of_kind hroot (by rw [hks]; decide)
    rw [hb.residue.remains.kind_eq s hlt] at hks
    have hloose := ho.expressions s (hb.residue.remains.attached s hlt hroot) hks
    exact hloose.not_stuck ((hb.residue.stuck_iff ht hlt hroot).mp hstuck)

/-- Two trees in which no step is legal hold the same nodes, commas and the words `from` apart. -/
theorem normal_unique (hl : t₀.Local) (ha : Relation.ReflTransGen LegalStep t₀ a) (hna : ∀ t, ¬ LegalStep a t)
    (hb : Relation.ReflTransGen LegalStep t₀ b) (hnb : ∀ t, ¬ LegalStep b t) (hm : t₀.Solid n) :
    a.contains n = b.contains n := by
  have hra := (Reached.refl hw hl).steps hw ho ha
  have hrb := (Reached.refl hw hl).steps hw ho hb
  rw [Bool.eq_iff_iff, contains_iff_below hra.residue.shaped.consistent,
    contains_iff_below hrb.residue.shaped.consistent]
  exact ⟨within_of_steps hw ho hl hra hna hb n hm, within_of_steps hw ho hl hrb hnb ha n hm⟩

end Reached

end DeadCode
