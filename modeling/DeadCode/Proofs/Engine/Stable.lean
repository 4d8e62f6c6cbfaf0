import Mathlib.Data.Finset.Card
import DeadCode.Proofs.Engine.Dangling
import DeadCode.Proofs.Engine.Runs

/-!
Trees from which nothing can be removed. A pass that removes nothing leaves the tree as it was, and the tree is
`Stable`: a new crawl finds nothing that could be taken out (`Passage.stable`). No pass removes anything from a
stable tree (`ends_runPassNoted_stable`). Each other pass takes a node out for good, so the number of nodes bounds the
passes by itself (`Engine.runAsked_eq`), and a run that may go on until it is stable ends in a stable tree or at its
limit (`run_stable`).
-/

namespace DeadCode

open DeadCode.Tree Workspace

namespace Tree

/-- The node is an assignment `name = number` in a statement of its own, to a name that is unbound and not built
in. -/
def DanglesAt (t : Tree) (n : NodeId) (name : String) : Prop :=
  t.Assigns n name ∧ t.crawled.bound (t.crawled.enclosing t n) name = false

/-- An attached node spells the name and is not the target of an assignment. -/
def Spells (t : Tree) (name : String) : Prop :=
  ∃ m, t.contains m = true ∧ (t.kind m).spellsName = true ∧ t.text m = name ∧ t.isAssignmentTarget m = false

/-- The last dangling assignment to the name is that of `n`. -/
def LastDangling (t : Tree) (name : String) (n : NodeId) : Prop :=
  ∃ earlier later, t.walk = earlier ++ n :: later ∧ t.DanglesAt n name ∧ ∀ m ∈ later, ¬ t.DanglesAt m name

/-- Whatever is unused stays: a new crawl finds no import without references, and where something else is unused
it cannot be removed. -/
structure Stable (t : Tree) : Prop where
  imports : ∀ b < t.crawled.bindings.size,
    (t.crawled.binding b).construct = .importSpecifier ∨ (t.crawled.binding b).construct = .importDefault →
      (t.crawled.binding b).references ≠ []
  functions : ∀ b < t.crawled.bindings.size, (t.crawled.binding b).construct = .function →
    (t.crawled.binding b).references = [] → t.Stuck (t.crawled.binding b).path
  declarators : ∀ b < t.crawled.bindings.size, (t.crawled.binding b).construct = .declarator →
    (t.crawled.binding b).references = [] → t.crawled.Holds (t.crawled.binding b) ∨
      (t.crawled.binding b).path = t.root ∨ ∃ d, t.parent (t.crawled.binding b).path = some d ∧
        t.Sole d (t.crawled.binding b).path ∧ t.Stuck d
  assignments : ∀ name, (∃ n, t.contains n = true ∧ t.DanglesAt n name) → t.Spells name ∨
    ∃ n statement, t.LastDangling name n ∧ t.parent n = some statement ∧ t.Stuck statement

end Tree

variable {t : Tree} {id : AnalysisId} {w w' u v : Workspace} {us : List Turn} {p : Pass × History}
  {h : History} {name : String} {n : NodeId} {r₀ : Report}

/-! ## Bindings -/

/-- The scopes of a crawl hold all its bindings. -/
theorem crawl_unreferenced (ht : t.Consistent) {b : BindingId} (hb : b < t.crawled.bindings.size)
    (hrefs : (t.crawled.binding b).references = []) : ∃ s, t.Below t.root s ∧
      b ∈ t.crawled.unreferenced (t.crawled.enclosing t s) ∧ t.Below t.root (t.crawled.binding b).path := by
  obtain ⟨hr, hbound⟩ := records_crawl ht {}
  obtain ⟨d, hd, hid⟩ := hbound b hb
  obtain ⟨hdesc, hdeclared⟩ := hr.describes hd hb hid
  have htarget := target_mem_scopeNodes ht hd
  obtain ⟨hown, hscope⟩ := hr.own?_of_mem hd htarget hdeclared
  refine ⟨d.target, ((mem_scopeNodes_iff ht).mp htarget).1, ?_, ?_⟩
  · have henclosing : t.crawled.enclosing t d.target = (t.crawled.binding b).scope := by
      change (({} : Analysis).crawl t).climbScope t _ _ = _
      rw [Analysis.climbScope, hscope]
      rfl
    rw [henclosing, Analysis.unreferenced, List.mem_filter]
    refine ⟨List.mem_map_of_mem (f := Prod.snd) (Table.mem_of_get? hown), ?_⟩
    rw [Binding.referenced, hrefs]
    rfl
  · change t.Below t.root ((({} : Analysis).crawl t).binding b).path
    rw [hdesc.path]
    exact path_attached ht (mem_declarations_of_binding hd)

theorem parent_eq_none_iff (ht : t.Consistent) (hn : t.Below t.root n) : t.parent n = none ↔ n = t.root := by
  constructor
  · intro hp
    by_contra hne
    obtain ⟨q, hq, _⟩ := hn.parent hne
    rw [hp] at hq
    cases hq
  · rintro rfl
    exact ht.root_parent

/-- Of a stable tree each unreferenced binding stays. -/
theorem Tree.Stable.declines (hs : t.Stable) (ht : t.Consistent) {b : BindingId}
    (hb : b < t.crawled.bindings.size) (hrefs : (t.crawled.binding b).references = []) :
    t.crawled.Declines t (t.crawled.binding b) := by
  unfold Analysis.Declines
  cases hc : (t.crawled.binding b).construct with
  | declarator =>
    rcases hs.declarators b hb hc hrefs with hh | hroot | hsole
    · exact .inl hh
    · exact .inr (.inl (hroot ▸ ht.root_parent))
    · exact .inr (.inr hsole)
  | function => exact hs.functions b hb hc hrefs
  | importSpecifier => exact hs.imports b hb (.inl hc) hrefs
  | importDefault => exact hs.imports b hb (.inr hc) hrefs
  | other => trivial

/-! ## Turns that remove nothing -/

theorem Turns.idle (h : Turns w us w') (hnone : ∀ t ∈ us, t.removed = false) :
    w' = w ∧ ∀ t ∈ us, t.before = w := by
  induction h with
  | nil => exact ⟨rfl, fun t ht => absurd ht List.not_mem_nil⟩
  | @cons u us w' _ hturn _ ih =>
    rcases hturn with ⟨hdone, _⟩ | ⟨_, hafter, _⟩
    · rw [hnone u List.mem_cons_self] at hdone
      cases hdone
    · obtain ⟨hw', hbefore⟩ := ih fun t ht => hnone t (List.mem_cons_of_mem u ht)
      refine ⟨hw'.trans hafter, fun t ht => ?_⟩
      rcases List.mem_cons.mp ht with rfl | ht
      · rfl
      · exact (hbefore t ht).trans hafter

/-- Candidates whose statements are stuck stay. -/
theorem Turns.idle_of_stuck (h : Turns w us w')
    (hstuck : ∀ t ∈ us, ∀ s, w.tree.parent t.assignment = some s → w.tree.Stuck s) : w' = w := by
  induction h with
  | nil => rfl
  | @cons u us w' _ hturn _ ih =>
    rcases hturn with ⟨_, s, q, t, hs, _, hq, hcut, _⟩ | ⟨_, hafter, _⟩
    · obtain ⟨q', hq', hlist, hslot⟩ := hstuck u List.mem_cons_self s hs
      obtain rfl := Option.some.inj (hq.symm.trans hq')
      rcases hcut with ⟨hl, _⟩ | ⟨hl, _⟩
      · rw [hlist] at hl
        cases hl
      · rw [hslot] at hl
        cases hl
    · rw [hafter] at ih
      exact ih fun t ht => hstuck t (List.mem_cons_of_mem u ht)

theorem exists_lastAssigned {ss : List Sighting} (h : ∃ s ∈ ss, s.Assigns name) :
    ∃ n, LastAssigned ss name n := by
  induction ss using List.reverseRecOn with
  | nil => exact absurd h (by simp)
  | append_singleton ss s ih =>
    by_cases hs : s.Assigns name
    · exact ⟨s.node, lastAssigned_concat.mpr (.inl ⟨hs, rfl⟩)⟩
    · obtain ⟨s', hs', ha⟩ := h
      rcases List.mem_append.mp hs' with hs' | hs'
      · obtain ⟨n, hn⟩ := ih ⟨s', hs', ha⟩
        exact ⟨n, lastAssigned_concat.mpr (.inr ⟨hs, hn⟩)⟩
      · exact absurd (List.mem_singleton.mp hs' ▸ ha) hs

/-! ## The sightings of a walk that changed nothing -/

/-- The sightings are those of the tree as it is, node for node in pre-order. -/
structure Views (t : Tree) (ss : List Sighting) : Prop where
  same : ∀ s ∈ ss, s.tree = t ∧ s.analysis = t.crawled
  nodes : ss.map Sighting.node = t.walk

namespace Views

variable {ss : List Sighting} {s : Sighting}

theorem assigns_iff (hv : Views t ss) (hs : s ∈ ss) : s.Assigns name ↔ t.DanglesAt s.node name := by
  obtain ⟨htree, ha⟩ := hv.same s hs
  rw [Sighting.Assigns, Sighting.scope, htree, ha]
  exact Iff.rfl

theorem sighting (hv : Views t ss) (ht : t.Consistent) (hn : t.contains n = true) : ∃ s ∈ ss, s.node = n := by
  have hw : n ∈ ss.map Sighting.node := by
    rw [hv.nodes]
    exact (mem_walk_iff ht).mpr ((contains_iff_below ht).mp hn)
  exact List.mem_map.mp hw

theorem contains (hv : Views t ss) (ht : t.Consistent) (hs : s ∈ ss) : t.contains s.node = true := by
  have hw : s.node ∈ t.walk := hv.nodes ▸ List.mem_map_of_mem hs
  exact (contains_iff_below ht).mpr ((mem_walk_iff ht).mp hw)

theorem spells_iff (hv : Views t ss) (ht : t.Consistent) : t.Spells name ↔ ∃ s ∈ ss, s.Reads name := by
  constructor
  · rintro ⟨m, hm, hk, htext, htarget⟩
    obtain ⟨s, hs, rfl⟩ := hv.sighting ht hm
    refine ⟨s, hs, ?_⟩
    rw [Sighting.Reads, (hv.same s hs).1]
    exact ⟨hk, htext, htarget⟩
  · rintro ⟨s, hs, hr⟩
    rw [Sighting.Reads, (hv.same s hs).1] at hr
    exact ⟨s.node, hv.contains ht hs, hr⟩

theorem lastDangling (hv : Views t ss) (h : LastAssigned ss name n) : t.LastDangling name n := by
  obtain ⟨earlier, s, later, rfl, rfl, ha, hlater⟩ := h
  have hmem : ∀ {s'}, s' ∈ s :: later → s' ∈ earlier ++ s :: later := fun h => List.mem_append_right _ h
  refine ⟨earlier.map Sighting.node, later.map Sighting.node, ?_, ?_, fun m hm hd => ?_⟩
  · rw [← hv.nodes, List.map_append, List.map_cons]
  · exact (hv.assigns_iff (hmem List.mem_cons_self)).mp ha
  · obtain ⟨s', hs', rfl⟩ := List.mem_map.mp hm
    exact hlater s' hs' ((hv.assigns_iff (hmem (List.mem_cons_of_mem s hs'))).mpr hd)

end Views

theorem Traced.views (hw : Traced w.tree r₀ id p u) (hnone : p.2.excisions = [])
    (hvisits : ∀ t, Remains u.tree t → (p.2.sightings.map Sighting.node).filter (w.tree.kept t) =
      w.tree.walk.filter (w.tree.kept t)) : Views w.tree p.2.sightings := by
  have hquiet := hw.quiet hnone
  have ht : w.tree.Consistent := hquiet.tree ▸ hw.remains.consistent
  refine ⟨fun s hs => ⟨(hquiet.sighted s hs).1, (hquiet.sighted s hs).2.1⟩, ?_⟩
  have hkept : ∀ m, w.tree.kept w.tree m = true ↔ w.tree.Below w.tree.root m := fun m =>
    (kept_iff_of ht).trans ⟨And.right, fun h => ⟨h.lt_size ht, h⟩⟩
  have hall := hvisits w.tree (hquiet.tree ▸ .refl hw.remains.consistent)
  rwa [List.filter_eq_self.mpr fun m hm => ?_, List.filter_eq_self.mpr fun m hm => ?_] at hall
  · exact (hkept m).mpr ((mem_walk_iff ht).mp hm)
  · obtain ⟨s, hs, rfl⟩ := List.mem_map.mp hm
    have hattached := (hw.sighted s hs).attached
    rw [(hquiet.sighted s hs).1] at hattached
    exact (hkept _).mpr hattached

theorem Tree.LastDangling.danglesAt (h : t.LastDangling name n) : t.DanglesAt n name := by
  obtain ⟨_, _, _, hd, _⟩ := h
  exact hd

theorem Tree.LastDangling.attached (ht : t.Consistent) (h : t.LastDangling name n) : t.Below t.root n := by
  obtain ⟨earlier, later, hwalk, _⟩ := h
  exact (mem_walk_iff ht).mp (hwalk ▸ List.mem_append_right earlier List.mem_cons_self)

theorem Tree.LastDangling.unique {m : NodeId} (hm : t.LastDangling name m) (hn : t.LastDangling name n) :
    m = n := by
  obtain ⟨as, bs, hwalk, hm, hbs⟩ := hm
  obtain ⟨as', bs', hwalk', hn, hbs'⟩ := hn
  rw [hwalk] at hwalk'
  rcases List.append_eq_append_iff.mp hwalk' with ⟨cs, rfl, hcs⟩ | ⟨cs, rfl, hcs⟩
  · cases cs with
    | nil => exact (List.cons.inj hcs).1
    | cons c cs =>
      obtain ⟨_, hrest⟩ := List.cons.inj hcs
      exact absurd hn (hbs n (by rw [hrest]; simp))
  · cases cs with
    | nil => exact (List.cons.inj hcs).1.symm
    | cons c cs =>
      obtain ⟨_, hrest⟩ := List.cons.inj hcs
      exact absurd hm (hbs' m (by rw [hrest]; simp))

/-! ## A pass that removes nothing -/

namespace Job.Passage

/-- What a pass counts. -/
theorem total (hp : Passage id w p u v h) :
    v.report.total = w.report.total + h.excisions.length + h.turns.countP Turn.removed ∧
      v.report.passes = w.report.passes := by
  have hexcisions : h.excisions = p.2.excisions := by rw [hp.history]
  rw [hp.turns.report.1, hp.turns.report.2, hexcisions]
  exact ⟨congrArg (· + _) hp.traced.recorded.1, hp.traced.recorded.2⟩

section Idle

variable (hp : Passage id w p u v h) (hnone : h.excisions = [])

include hp hnone

/-- A binding that a pass without removals found unreferenced has a reason to stay. -/
theorem declines {b : BindingId} (hb : b < w.tree.crawled.bindings.size)
    (hrefs : (w.tree.crawled.binding b).references = []) :
    w.tree.crawled.Declines w.tree (w.tree.crawled.binding b) := by
  have hnone' : p.2.excisions = [] := by rw [← hnone, hp.history]
  have ht := hp.consistent
  obtain ⟨n, hn, hmem, hpath⟩ := crawl_unreferenced ht hb hrefs
  obtain ⟨s, hs, rfl⟩ := (hp.traced.views hnone' hp.visits).sighting ht ((contains_iff_below ht).mpr hn)
  obtain ⟨htree, ha, hinert⟩ := (hp.traced.quiet hnone').sighted s hs
  rw [Sighting.scope, htree, ha] at hinert
  exact hinert b hmem hpath

/-- Of a name that is assigned to and not declared, and that nothing reads, the last assignment is stuck. -/
theorem stuck (hturns : ∀ t ∈ h.turns, t.removed = false) {name : String} {n : NodeId}
    (hn : w.tree.contains n = true) (hd : w.tree.DanglesAt n name) (hread : ¬ w.tree.Spells name) :
    ∃ m s, w.tree.LastDangling name m ∧ w.tree.parent m = some s ∧ w.tree.Stuck s := by
  have hnone' : p.2.excisions = [] := by rw [← hnone, hp.history]
  have ht := hp.consistent
  have hquiet := hp.traced.quiet hnone'
  have hviews := hp.traced.views hnone' hp.visits
  obtain ⟨_, hbefore⟩ := hp.turns.idle hturns
  obtain ⟨s, hs, rfl⟩ := hviews.sighting ht hn
  obtain ⟨m, hm⟩ := exists_lastAssigned ⟨s, hs, (hviews.assigns_iff hs).mpr hd⟩
  have hlast := hviews.lastDangling hm
  have hdangles : Dangles h.sightings name m := by
    rw [hp.sightings]
    exact ⟨hm, fun s hs hr => hread ((hviews.spells_iff ht).mpr ⟨s, hs, hr⟩)⟩
  -- so the last assignment had a turn
  obtain ⟨t, htmem, _, rfl⟩ := (hp.candidate_iff name m).mpr hdangles
  obtain ⟨_, _, hturn⟩ := hp.turns.edits_of_mem htmem
  have htree : t.before.tree = w.tree := by
    rw [hbefore t htmem]
    exact hquiet.tree
  obtain ⟨statement, hstatement, _⟩ := hlast.danglesAt.1.statement
  refine ⟨_, statement, hlast, hstatement, ?_⟩
  rcases hturn with ⟨hdone, _⟩ | ⟨_, _, hstuck⟩
  · rw [hturns t htmem] at hdone
    cases hdone
  · rw [htree] at hstuck
    exact hstuck statement hstatement ((hlast.attached ht).root_of_below ht (.of_parent hstatement))

/-- If nothing was removed, the tree is what it was, and stable. -/
theorem stable (hturns : ∀ t ∈ h.turns, t.removed = false) : v.tree = w.tree ∧ w.tree.Stable := by
  have hnone' : p.2.excisions = [] := by rw [← hnone, hp.history]
  have ht := hp.consistent
  obtain ⟨hv, _⟩ := hp.turns.idle hturns
  refine ⟨by rw [hv]; exact (hp.traced.quiet hnone').tree, ⟨fun b hb hc hrefs => ?_, fun b hb hc hrefs => ?_,
    fun b hb hc hrefs => ?_, fun name hname => ?_⟩⟩
  · have hd := hp.declines hnone hb hrefs
    unfold Analysis.Declines at hd
    rcases hc with hc | hc
    · rw [hc] at hd
      exact hd
    · rw [hc] at hd
      exact hd
  · have hd := hp.declines hnone hb hrefs
    rwa [Analysis.Declines, hc] at hd
  · have hd := hp.declines hnone hb hrefs
    obtain ⟨_, _, _, hpath⟩ := crawl_unreferenced ht hb hrefs
    rwa [Analysis.Declines, hc, parent_eq_none_iff ht hpath] at hd
  · obtain ⟨n, hn, hd⟩ := hname
    by_cases hread : w.tree.Spells name
    · exact .inl hread
    · exact .inr (hp.stuck hnone hturns hn hd hread)

end Idle

/-- If something was removed, a node is gone that is no empty statement. -/
theorem loses (hp : Passage id w p u v h) (htotal : v.report.total ≠ w.report.total) :
    ∃ m, w.tree.contains m = true ∧ v.tree.contains m = false ∧ w.tree.kind m ≠ .emptyStatement := by
  have ht := hp.consistent
  have hv := hp.remains.consistent
  have hr := hp.turns.edits.remains hp.traced.remains.consistent
  -- a node of the tree in between that is no empty statement was there before
  have lost : ∀ {t t' : Tree} {m : NodeId}, Remains w.tree t → Remains t' v.tree → m < t'.size →
      t.Below t.root m → ¬ t'.Below t'.root m → t.kind m ≠ .emptyStatement →
      w.tree.contains m = true ∧ v.tree.contains m = false ∧ w.tree.kind m ≠ .emptyStatement := by
    intro t t' m hwt ht' hlt hroot hgone hk
    obtain ⟨_, hroot', hk'⟩ := hwt.old hroot hk
    refine ⟨(contains_iff_below ht).mpr hroot', ?_, hk'.symm ▸ hk⟩
    have hout : ¬ v.tree.Below v.tree.root m := fun hb => hgone (ht'.attached m hlt hb)
    rw [← contains_iff_below hv] at hout
    simpa using hout
  by_cases hx : h.excisions = []
  · have hcount : h.turns.countP Turn.removed ≠ 0 := fun hz => htotal (by simp [hp.total.1, hx, hz])
    obtain ⟨t, htmem, hdone⟩ : ∃ t ∈ h.turns, t.removed = true := by
      by_contra hnone
      exact hcount (List.countP_eq_zero.mpr fun t ht hd => hnone ⟨t, ht, hd⟩)
    obtain ⟨hbefore, hafter, hturn⟩ := hp.turns.edits_of_mem htmem
    obtain ⟨s, hs, _, ha, statement, hstatement, hiff, hout⟩ := hp.turn htmem
    have hb := hp.traced.remains.trans (hbefore.remains hp.traced.remains.consistent)
    have hb' := hturn.edits.remains hb.consistent
    have hprec := (hp.traced.sighted s (hp.sightings ▸ hs)).edits (w := u.leave (.analysis id)) hbefore
    have hin := (contains_iff_below hb.consistent).mp (hiff.mp hdone).1
    have hgone : ¬ t.after.tree.Below t.after.tree.root statement := fun hroot => by
      rw [(contains_iff_below hb'.consistent).mpr hroot] at hout
      exact absurd (hout hdone) (by decide)
    refine ⟨statement, lost hb (hafter.remains hb'.consistent) ?_ hin hgone ?_⟩
    · exact lt_of_lt_of_le (hin.lt_size hb.consistent) hb'.size_le
    · obtain ⟨s', hs', hk⟩ := ha.1.statement
      obtain rfl := Option.some.inj (hs'.symm.trans hstatement)
      rw [hprec.remains.kind_eq s' (hprec.consistent.parent_lt hs'), hk]
      decide
  · obtain ⟨x, hxmem⟩ := List.exists_mem_of_ne_nil _ hx
    rw [hp.history] at hxmem
    obtain ⟨hexcised, hbefore, hafter⟩ := hp.traced.excised x hxmem
    refine ⟨x.binding.path, lost hbefore (hafter.trans hr) ?_ hexcised.attached hexcised.detached hexcised.kind_ne⟩
    exact lt_of_lt_of_le (hexcised.attached.lt_size hbefore.consistent)
      (hexcised.edits.remains hbefore.consistent).size_le

end Job.Passage

/-! ## Passes over a stable tree -/

/-- Nothing leaves a stable tree on its walk. -/
theorem Tree.Stable.upheld (hs : t.Stable) (ht : t.Consistent) : Upheld id (fun h w =>
    h.excisions = [] ∧ w.tree = t ∧ (w.analysis id = {} ∨ w.analysis id = t.crawled)) Job.Never where
  refresh := by
    rintro h w hw ⟨hnone, htree, ha⟩
    refine ⟨hnone, (refresh_frame w id).1.trans htree, ?_⟩
    rw [analysis_refresh hw.follows.lt, htree]
    split
    · rcases ha with ha | ha
      · exact .inr (by rw [ha]; rfl)
      · rename_i hstale
        rw [ha] at hstale
        simp [Analysis.stale, Tree.crawled, Analysis.crawl] at hstale
    · exact ha
  excise := by
    rintro h w β b ⟨hnone, htree, ha⟩ hl
    have ha : w.analysis id = t.crawled := ha.resolve_left fun ha => hl.crawled (by rw [ha])
    have hβ : t.crawled.binding β = b := ha ▸ hl.binding
    have hlt : β < t.crawled.bindings.size := ha ▸ hl.lt
    have hdeclines := hs.declines ht hlt (by rw [hβ]; exact hl.unreferenced)
    rw [hβ, ← ha, ← htree] at hdeclines
    refine (Job.ends_removeBinding_declines hl.tracks.consistent hl.placed fun _ => hdeclines).imp fun done w' h htrue => ?_
    rw [h.1] at htrue
    cases htrue
  sight hj _ _ := hj

theorem ends_runPassNoted_stable (ht : w.tree.Consistent) (hs : w.tree.Stable) : Job.runPassNoted.Ends w
    (fun r w' => r.1 = 0 ∧ w'.tree = w.tree ∧ w'.report.total = w.report.total) Job.Never := by
  have hstart : w.startAnalysis.2.analysis w.startAnalysis.1 = {} := by
    simp [startAnalysis, join, analysis]
  -- the statement of a candidate is stuck
  have hstuck : ∀ {p : Pass × History} {u : Workspace}, Traced w.tree w.report w.startAnalysis.1 p u →
      p.2.excisions = [] → (∀ t, Remains u.tree t → (p.2.sightings.map Sighting.node).filter (w.tree.kept t) =
        w.tree.walk.filter (w.tree.kept t)) → ∀ e ∈ p.1.collector.candidates.entries,
        w.tree.contains e.2 = true ∧ ∀ s, w.tree.parent e.2 = some s → w.tree.Stuck s := by
    intro p u htraced hnone hvisits e he
    have hviews := htraced.views hnone hvisits
    obtain ⟨hlast, hread⟩ := (htraced.collected.candidate e.1 e.2).mp
      (Table.get?_of_mem htraced.collected.distinct he)
    have hlast := hviews.lastDangling hlast
    have hin := (contains_iff_below ht).mpr (hlast.attached ht)
    refine ⟨hin, fun s hparent => ?_⟩
    rcases hs.assignments e.1 ⟨e.2, hin, hlast.danglesAt⟩ with hspells | ⟨n, statement, hn, hp, hstuck⟩
    · obtain ⟨s, hs, hr⟩ := (hviews.spells_iff ht).mp hspells
      exact absurd hr (hread s hs)
    · rw [hlast.unique hn, hp] at hparent
      exact Option.some.inj hparent ▸ hstuck
  have hpass := Job.ends_runPassNoted_passage (P := False) (J := fun h u => h.excisions = [] ∧
      u.tree = w.tree ∧ (u.analysis w.startAnalysis.1 = {} ∨ u.analysis w.startAnalysis.1 = w.tree.crawled))
    ht (hs.upheld ht) ⟨rfl, rfl, .inl hstart⟩ fun p u htraced hj hvisits e he w' hedits => ?_
  · refine hpass.imp fun r w' hr => ?_
    obtain ⟨p, u, v, hp, ⟨hnone, htree, _⟩, _, rfl, hcount⟩ := hr
    have hv : v = u.leave (.analysis w.startAnalysis.1) := hp.turns.idle_of_stuck fun t htmem s hparent => by
      have he : t.candidate ∈ p.1.collector.candidates.entries := hp.candidates ▸ List.mem_map_of_mem htmem
      change u.tree.parent t.assignment = some s at hparent
      change u.tree.Stuck s
      rw [htree] at hparent ⊢
      exact (hstuck hp.traced hnone hp.visits _ he).2 s hparent
    have htotal : v.report.total = w.report.total := by
      have := hp.traced.recorded.1
      rw [hnone] at this
      rw [hv]
      exact this
    refine ⟨by rw [hcount, htotal, Nat.sub_self], ?_, htotal⟩
    change v.tree = w.tree
    rw [hv]
    exact htree
  · -- its turn fails only if the statement is the root
    obtain ⟨hin, hplace⟩ := hstuck htraced hj.1 hvisits e he
    have hr : Remains w.tree w'.tree := htraced.remains.trans (hedits.remains htraced.remains.consistent)
    refine (Job.ends_removeCandidate hr.consistent e.1 e.2).mono (fun _ _ _ => trivial) fun _ _ hroot => ?_
    have hlt := ((contains_iff_below ht).mp hin).lt_size ht
    rw [hr.parent_eq e.2 hlt (.of_parent hroot)] at hroot
    obtain ⟨q, hq, _⟩ := hplace _ hroot
    rw [hr.root, ht.root_parent] at hq
    cases hq

/-! ## Runs -/

namespace Tree

/-- How many attached nodes are no empty statements. -/
def mass (t : Tree) : Nat :=
  ((Finset.range t.size).filter fun m => t.contains m = true ∧ t.kind m ≠ .emptyStatement).card

theorem mass_le (t : Tree) : t.mass ≤ t.size := by
  simpa [mass] using Finset.card_filter_le (Finset.range t.size) _

theorem Remains.mass_lt {t' : Tree} (hr : Remains t t') (ht : t.Consistent)
    (hlost : ∃ m, t.contains m = true ∧ t'.contains m = false ∧ t.kind m ≠ .emptyStatement) :
    t'.mass < t.mass := by
  obtain ⟨m, hin, hout, hk⟩ := hlost
  refine Finset.card_lt_card (Finset.ssubset_iff_of_subset (fun n hn => ?_) |>.mpr ⟨m, ?_, ?_⟩)
  · obtain ⟨hlt, hin, hk⟩ := by simpa using hn
    have hroot := (contains_iff_below hr.consistent).mp hin
    obtain ⟨hn, hroot', hk'⟩ := hr.old hroot hk
    have hin := (contains_iff_below ht).mpr hroot'
    simpa [hn, hin] using hk'.symm ▸ hk
  · simpa [((contains_iff_below ht).mp hin).lt_size ht, hin] using hk
  · simp [hout]

end Tree

/-- A pass removes nothing and finds the tree stable, or something is gone for good. -/
theorem Job.ends_runPass_stable (ht : w.tree.Consistent) : runPass.Ends w (fun k w' =>
    w'.tree.Consistent ∧ w'.report.passes = w.report.passes + 1 ∧
      (k = 0 → w'.tree = w.tree ∧ w.tree.Stable) ∧ (k ≠ 0 → w'.tree.mass < w.tree.mass)) Whatever := by
  rw [← runPass_of_noted, ends_map]
  refine (ends_runPassNoted_any ht).imp fun r w' hr => ?_
  obtain ⟨p, u, v, hp, _, rfl, hcount⟩ := hr
  obtain ⟨htotal, hpasses⟩ := hp.total
  refine ⟨hp.remains.consistent, congrArg (· + 1) hpasses, fun hz => ?_, fun hz => ?_⟩
  · have hzero : r.2.excisions.length = 0 ∧ r.2.turns.countP Turn.removed = 0 := by omega
    refine hp.stable (List.eq_nil_of_length_eq_zero hzero.1) fun t htmem => ?_
    simpa using List.countP_eq_zero.mp hzero.2 t htmem
  · exact hp.remains.mass_lt ht (hp.loses (by omega))

theorem Job.ends_runPasses_stable (fuel : Nat) (ht : w.tree.Consistent) : (runPasses fuel).Ends w
    (fun _ w' => w'.tree.Consistent ∧ (w'.tree.Stable ∨ w'.report.passes = w.report.passes + fuel)) Whatever := by
  induction fuel generalizing w with
  | zero => exact ⟨ht, .inr rfl⟩
  | succ fuel ih =>
    rw [runPasses, ends_bind]
    refine (ends_runPass_stable ht).imp fun k u hu => ends_ite (fun hz => ?_) fun hz => ?_
    · obtain ⟨hcu, _, hstable, _⟩ := hu
      obtain ⟨htree, hstable⟩ := hstable hz
      exact ⟨hcu, .inl (htree ▸ hstable)⟩
    · obtain ⟨hcu, hpasses, _⟩ := hu
      exact (ih hcu).imp fun _ w' hw' => ⟨hw'.1, hw'.2.imp_right fun h => by omega⟩

/-! ## The bound on the passes -/

/-- Where more passes are allowed than there are nodes to take out, it does not matter how many. -/
theorem Job.runPasses_eq {m n : Nat} (ht : w.tree.Consistent) (hm : w.tree.mass < m) (hn : w.tree.mass < n) :
    runPasses m w = runPasses n w := by
  induction m generalizing n w with
  | zero => exact absurd hm (Nat.not_lt_zero _)
  | succ m ih =>
    obtain ⟨n, rfl⟩ := Nat.exists_eq_succ_of_ne_zero (Nat.ne_of_gt (Nat.zero_lt_of_lt hn))
    rw [runPasses, runPasses]
    cases hrun : runPass w with
    | error e u => rw [bind_of_error hrun, bind_of_error hrun]
    | ok k u =>
      rw [bind_of_ok hrun, bind_of_ok hrun]
      by_cases hk : k = 0
      · rw [if_pos hk, if_pos hk]
      · obtain ⟨hct, _, _, hless⟩ := (ends_runPass_stable ht).of_ok hrun
        have hless := hless hk
        rw [if_neg hk, if_neg hk]
        exact ih hct (by omega) (by omega)

/-- As `run`, with no bound on the passes but the one that was asked for. -/
def Engine.runAsked (e : Engine) : Job Report := do
  modify ({ · with report := {} })
  Job.runPasses (if e.untilStable then e.maxPasses.toNat else 1)
  return (← get).report

/-- The bound by the number of nodes takes no pass from a run. -/
theorem Engine.runAsked_eq (e : Engine) (ht : w.tree.Consistent) : e.runAsked w = e.run w := by
  have hpasses : Job.runPasses (if e.untilStable then e.maxPasses.toNat else 1) { w with report := {} } =
      Job.runPasses (e.passLimit w.tree) { w with report := {} } := by
    have hle := w.tree.mass_le
    rw [passLimit]
    split
    · rcases Nat.le_total e.maxPasses.toNat (w.tree.size + 1) with hl | hl
      · rw [Nat.min_eq_left hl]
      · rw [Nat.min_eq_right hl]
        refine Job.runPasses_eq (w := { w with report := {} }) ht ?_ ?_
        · exact Nat.lt_of_lt_of_le (Nat.lt_succ_of_le hle) hl
        · exact Nat.lt_succ_of_le hle
    · rfl
  change EStateM.bind (Job.runPasses _) _ { w with report := {} } =
    EStateM.bind (Job.runPasses (e.passLimit w.tree)) _ { w with report := {} }
  rw [EStateM.bind, EStateM.bind, hpasses]

/-! ## Runs that go on until the tree is stable -/

/-- A run on a stable tree returns, and removes nothing. -/
theorem Engine.ends_run_stable (e : Engine) (ht : w.tree.Consistent) (hs : w.tree.Stable) : e.run.Ends w
    (fun report w' => report.total = 0 ∧ w'.tree = w.tree) Job.Never := by
  obtain ⟨fuel, hfuel⟩ := Nat.exists_eq_succ_of_ne_zero (e.passLimit_ne_zero w.tree)
  rw [Engine.run, Job.ends_bind, Job.ends_modify, Job.ends_bind, Job.ends_get, Job.ends_bind]
  change (Job.runPasses (e.passLimit w.tree)).Ends _ _ _
  rw [hfuel, Job.runPasses, Job.ends_bind, ← Job.runPass_of_noted, Job.ends_map]
  refine (ends_runPassNoted_stable (w := { w with report := {} }) ht hs).imp fun r u hr => ?_
  refine Job.ends_ite (fun _ => ?_) fun hz => absurd hr.1 hz
  exact ⟨hr.2.2, hr.2.1⟩

/-- A pass that counts no removal leaves the tree as it was, and the tree is stable. A run until stable goes to its
limit or ends in a stable tree, and from that no further run removes anything. -/
theorem run_stable (w : Workspace) (ht : w.tree.Consistent) :
    (∀ w', Job.runPass w = .ok 0 w' → w'.tree = w.tree ∧ w.tree.Stable) ∧
      ∀ (e : Engine) report w', e.untilStable = true → e.run w = .ok report w' →
        report.passes = e.maxPasses ∨ w'.tree.Stable ∧ ∀ e' : Engine, ∃ report' w'', e'.run w' = .ok report' w'' ∧
          report'.total = 0 ∧ w''.tree = w'.tree := by
  refine ⟨fun w' hrun => ((Job.ends_runPass_stable ht).of_ok hrun).2.2.1 rfl, fun e report w' huntil hrun => ?_⟩
  rw [← e.runAsked_eq ht] at hrun
  have hends : e.runAsked.Ends w (fun report w' => report = w'.report ∧ w'.tree.Consistent ∧
      (w'.tree.Stable ∨ w'.report.passes = e.maxPasses.toNat)) Job.Whatever := by
    rw [Engine.runAsked, if_pos huntil, Job.ends_bind, Job.ends_modify, Job.ends_bind]
    refine (Job.ends_runPasses_stable (w := { w with report := {} }) _ ht).imp fun _ w' hw' => ?_
    exact ⟨rfl, hw'.1, hw'.2.imp_right fun h => h.trans (Nat.zero_add _)⟩
  obtain ⟨rfl, hct, hstable | hpasses⟩ := hends.of_ok hrun
  · exact .inr ⟨hstable, fun e' => (e'.ends_run_stable hct hstable).returns⟩
  · have hpos := e.maxPasses_pos
    exact .inl (by omega)

/-- `let a = 1; let b = 2; b; c = 3;` is stable after one pass, which the second pass finds. -/
theorem run_stable_smallProgram : ∃ report w',
    ({ untilStable := true } : Engine).run { tree := smallProgram } = .ok report w' ∧ report.passes = 2 ∧
      w'.tree.contains 3 = false ∧ w'.tree.Stable ∧
      ∃ report' w'', ({} : Engine).run w' = .ok report' w'' ∧ report'.total = 0 ∧ w''.tree = w'.tree := by
  have hout : answer? (({ untilStable := true } : Engine).run { tree := smallProgram }) (fun report w' =>
      (report.passes, w'.tree.contains 3)) = some (2, false) := by decide +kernel
  obtain ⟨report, w', hrun, hout⟩ := answer?_eq_some.mp hout
  obtain ⟨hpasses, hgone⟩ := Prod.mk.inj hout
  rcases (run_stable { tree := smallProgram } (by decide +kernel)).2 _ report w' rfl hrun with h | ⟨hstable, hagain⟩
  · rw [hpasses] at h
    exact absurd h (by decide)
  · exact ⟨report, w', hrun, hpasses, hgone, hstable, hagain {}⟩

end DeadCode
