import DeadCode.Proofs.Engine.Candidates
import DeadCode.Proofs.Engine.Visits

/-!
The walk of a pass with its history, in any consistent tree. What the history tells at every moment is `Traced`;
as long as nothing was taken out, every scope seen holds nothing that could be (`Quiet`). The walk sees each node
that stays, in order, and keeps whatever removals and sightings keep (`ends_walkNoted_traced`).
-/

namespace DeadCode

open DeadCode.Tree Workspace

/-- The analysis of a first crawl. -/
def Tree.crawled (t : Tree) : Analysis := ({} : Analysis).crawl t

/-- All that nothing refers to in the scope stays in the tree. -/
def Analysis.Inert (a : Analysis) (t : Tree) (s : ScopeId) : Prop :=
  ∀ β ∈ a.unreferenced s, t.Below t.root (a.binding β).path → a.Declines t (a.binding β)

/-- The sighting was made in a tree of which `t` is what remains. An assignment that was seen in a statement of
its own stays in it. -/
structure Sighting.Precedes (s : Sighting) (t : Tree) : Prop where
  consistent : s.tree.Consistent
  attached : s.tree.Below s.tree.root s.node
  remains : Remains s.tree t
  statement : ∀ q, s.tree.kind s.node = .assignmentExpression → s.tree.parent s.node = some q →
    s.tree.kind q = .expressionStatement → t.Below t.root q → t.parent s.node = some q

/-- The walk changed nothing and found nothing to change. -/
structure Quiet (t₀ : Tree) (id : AnalysisId) (p : Pass × History) (w : Workspace) : Prop where
  tree : w.tree = t₀
  analysis : w.analysis id = {} ∨ w.analysis id = t₀.crawled
  settled : ∀ s r, p.1.settled.get? ⟨id, t₀.crawled.crawls, s⟩ = some r → t₀.crawled.Inert t₀ s
  sighted : ∀ s ∈ p.2.sightings, s.tree = t₀ ∧ s.analysis = t₀.crawled ∧ s.analysis.Inert t₀ s.scope

/-- What holds throughout a walk that began with the tree `t₀` and the report `r₀`. -/
structure Traced (t₀ : Tree) (r₀ : Report) (id : AnalysisId) (p : Pass × History) (w : Workspace) : Prop where
  tracks : Tracks id w
  remains : Remains t₀ w.tree
  collected : Collector.Collected p.2.sightings p.1.collector
  turns : p.2.turns = []
  sighted : ∀ s ∈ p.2.sightings, s.Precedes w.tree
  excised : ∀ x ∈ p.2.excisions, Excised x.binding x.before x.after ∧ Remains t₀ x.before.tree ∧
    Remains x.after.tree w.tree
  recorded : w.report.total = r₀.total + p.2.excisions.length ∧ w.report.passes = r₀.passes
  quiet : p.2.excisions = [] → Quiet t₀ id p w

/-- An invariant that removals and sightings keep. -/
structure Upheld (id : AnalysisId) (J : History → Workspace → Prop) (E : SurgeryError → Workspace → Prop) :
    Prop where
  refresh : ∀ {h w}, Tracks id w → J h w → J h (w.refresh id)
  excise : ∀ {h w β b}, J h w → Listed id w β b →
    (Job.removeBinding id b).Ends w (fun done w' => done = true → J (h.excise ⟨b, w, w'⟩) w') E
  sight : ∀ {h w n}, J h w → w.tree.contains n = true →
    (w.tree.kind n = .assignmentExpression → (w.analysis id).version ≠ none) →
    J (h.sight ⟨n, w.tree, w.analysis id⟩) w

variable {t₀ : Tree} {r₀ : Report} {id : AnalysisId} {pass : Pass} {h : History} {p : Pass × History}
  {w w' : Workspace} {β : BindingId} {b : Binding} {n : NodeId} {J : History → Workspace → Prop}
  {E : SurgeryError → Workspace → Prop}

theorem Upheld.whatever (h : Upheld id J E) : Upheld id J Job.Whatever :=
  ⟨h.refresh, fun hj hl => (h.excise hj hl).mono (fun _ _ hq => hq) fun _ _ _ => trivial, h.sight⟩

/-! ## Bringing the analysis up to date -/

theorem Workspace.Follows.refresh (h : w.Follows id) : (w.refresh id).Follows id := by
  obtain ⟨_, hf, hs, _⟩ := refresh_frame w id
  exact ⟨hf ▸ h.mem, hs ▸ h.lt⟩

theorem Tracks.refresh (h : Tracks id w) : Tracks id (w.refresh id) := by
  have htree := (refresh_frame w id).1
  refine ⟨htree ▸ h.consistent, h.follows.refresh, ?_⟩
  rw [analysis_refresh h.follows.lt, htree]
  split
  · exact .inr ⟨rfl, sited_crawl h.consistent _⟩
  · exact h.sited

theorem Tracks.crawled_refresh (h : Tracks id w) : ((w.refresh id).analysis id).version ≠ none := by
  rw [analysis_refresh h.follows.lt]
  split
  · exact Option.some_ne_none _
  · rename_i hs
    intro hv
    rw [Analysis.stale, hv] at hs
    exact hs rfl

/-- A binding that the analysis lists as unreferenced. -/
theorem Tracks.listed (h : Tracks id w) (hc : (w.analysis id).version ≠ none) {s : ScopeId}
    (hβ : β ∈ (w.analysis id).unreferenced s) : Listed id w β ((w.analysis id).binding β) := by
  obtain ⟨hown, hrefs⟩ := List.mem_filter.mp hβ
  obtain ⟨e, he, rfl⟩ := List.mem_map.mp hown
  refine ⟨h, hc, ?_, rfl, ?_⟩
  · exact (h.sited.resolve_left fun hv => hc hv).2.names_lt s e he
  · simpa [Binding.referenced] using hrefs

/-! ## The steps of the walk -/

namespace Sighting.Precedes

variable {s : Sighting} {t : Tree}

theorem edits (hs : s.Precedes w.tree) (he : Edits w w') : s.Precedes w'.tree where
  consistent := hs.consistent
  attached := hs.attached
  remains := hs.remains.trans (he.remains hs.remains.consistent)
  statement q hk hp hkq hroot := by
    have hlt := lt_size_of_parent hp
    have hq := hs.consistent.parent_lt hp
    have hr := he.remains hs.remains.consistent
    have hroot' := hr.attached q (lt_of_lt_of_le hq hs.remains.size_le) hroot
    exact he.statement_kept hs.remains.consistent ((hs.remains.kind_eq _ hlt).trans hk)
      (hs.statement q hk hp hkq hroot') ((hs.remains.kind_eq _ hq).trans hkq) hroot

end Sighting.Precedes

namespace Traced

theorem start (ht : w.tree.Consistent) : Traced w.tree w.report w.startAnalysis.1 ({}, {})
    w.startAnalysis.2 where
  tracks := by
    have hnone : w.startAnalysis.2.analysis w.startAnalysis.1 = {} := by
      simp [startAnalysis, join, analysis]
    exact ⟨ht, ⟨by simp [startAnalysis, join], by simp [startAnalysis, join]⟩, .inl (by rw [hnone])⟩
  remains := .refl ht
  collected := Collector.collected_nil
  turns := rfl
  sighted _ hs := absurd hs List.not_mem_nil
  excised _ hx := absurd hx List.not_mem_nil
  recorded := ⟨rfl, rfl⟩
  quiet _ :=
    ⟨rfl, .inl (by simp [startAnalysis, join, analysis]), fun _ _ hget => (by cases hget),
      fun _ hs => absurd hs List.not_mem_nil⟩

theorem refresh (hw : Traced t₀ r₀ id p w) : Traced t₀ r₀ id p (w.refresh id) := by
  obtain ⟨htree, _, _, hreport⟩ := refresh_frame w id
  refine ⟨hw.tracks.refresh, htree ▸ hw.remains, hw.collected, hw.turns, htree ▸ hw.sighted,
    htree ▸ hw.excised, hreport ▸ hw.recorded, fun hnone => ?_⟩
  have hquiet := hw.quiet hnone
  refine ⟨htree.trans hquiet.tree, ?_, hquiet.settled, hquiet.sighted⟩
  rw [analysis_refresh hw.tracks.follows.lt, hquiet.tree]
  rcases hquiet.analysis with ha | ha
  · rw [ha]
    exact .inr rfl
  · rw [ha, if_neg (by simp [Analysis.stale, Tree.crawled, Analysis.crawl])]
    exact .inr rfl

/-- In a quiet walk a refreshed analysis is that of the first crawl. -/
theorem analysis_refresh_quiet (hw : Traced t₀ r₀ id p w) (hnone : p.2.excisions = []) :
    (w.refresh id).analysis id = t₀.crawled := by
  refine ((hw.refresh.quiet hnone).analysis).resolve_left fun h => hw.tracks.crawled_refresh ?_
  rw [h]

theorem excise (hw : Traced t₀ r₀ id (pass, h) w) (hx : Excised b w w') :
    Traced t₀ r₀ id (pass, h.excise ⟨b, w, w'⟩) w' where
  tracks := hx.edits.tracks hw.tracks
  remains := hw.remains.trans (hx.edits.remains hw.remains.consistent)
  collected := hw.collected
  turns := hw.turns
  sighted s hs := (hw.sighted s hs).edits hx.edits
  excised x hmem := by
    have hr := hx.edits.remains hw.remains.consistent
    rcases List.mem_append.mp hmem with hmem | hmem
    · obtain ⟨hxx, hbefore, hafter⟩ := hw.excised x hmem
      exact ⟨hxx, hbefore, hafter.trans hr⟩
    · obtain rfl := List.mem_singleton.mp hmem
      exact ⟨hx, hw.remains, .refl hr.consistent⟩
  recorded := by
    obtain ⟨r, hr⟩ := hx.recorded
    rw [hr, Report.total_record, hw.recorded.1]
    exact ⟨by simp [History.excise, Nat.add_assoc], hw.recorded.2⟩
  quiet hnone := absurd hnone (by simp [History.excise])

theorem settle (hw : Traced t₀ r₀ id (pass, h) w) (settled : Settled)
    (hs : h.excisions = [] → ∀ s r, settled.get? ⟨id, t₀.crawled.crawls, s⟩ = some r →
      t₀.crawled.Inert t₀ s) : Traced t₀ r₀ id ({ pass with settled }, h) w where
  tracks := hw.tracks
  remains := hw.remains
  collected := hw.collected
  turns := hw.turns
  sighted := hw.sighted
  excised := hw.excised
  recorded := hw.recorded
  quiet hnone :=
    have hquiet := hw.quiet hnone
    ⟨hquiet.tree, hquiet.analysis, hs hnone, hquiet.sighted⟩

/-- A node is shown to the collector; `hinert` is what entering it has left. -/
theorem sight {p' : Pass × History} (hw : Traced t₀ r₀ id p w) (hn : w.tree.contains n = true)
    (hinert : p.2.excisions = [] → w.analysis id = t₀.crawled ∧
      t₀.crawled.Inert t₀ (t₀.crawled.enclosing t₀ n))
    (hcollector : p'.1.collector = p.1.collector.see ⟨n, w.tree, w.analysis id⟩)
    (hsettled : p'.1.settled = p.1.settled) (hhistory : p'.2 = p.2.sight ⟨n, w.tree, w.analysis id⟩) :
    Traced t₀ r₀ id p' w where
  tracks := hw.tracks
  remains := hw.remains
  collected := by
    rw [hcollector, hhistory]
    exact Collector.collected_see hw.collected _
  turns := by
    rw [hhistory]
    exact hw.turns
  sighted s hs := by
    rw [hhistory] at hs
    rcases List.mem_append.mp hs with hs | hs
    · exact hw.sighted s hs
    · obtain rfl := List.mem_singleton.mp hs
      exact ⟨hw.remains.consistent, (contains_iff_below hw.remains.consistent).mp hn,
        .refl hw.remains.consistent, fun q _ hp _ _ => hp⟩
  excised := by
    rw [hhistory]
    exact hw.excised
  recorded := by
    rw [hhistory]
    exact hw.recorded
  quiet hnone := by
    rw [hhistory] at hnone
    have hquiet := hw.quiet hnone
    refine ⟨hquiet.tree, hquiet.analysis, hsettled ▸ hquiet.settled, fun s hs => ?_⟩
    rw [hhistory] at hs
    rcases List.mem_append.mp hs with hs | hs
    · exact hquiet.sighted s hs
    · obtain rfl := List.mem_singleton.mp hs
      obtain ⟨ha, hinert⟩ := hinert hnone
      refine ⟨hquiet.tree, ha, ?_⟩
      rw [Sighting.scope, hquiet.tree, ha]
      exact hinert

end Traced

/-! ## The walk -/

namespace Job

theorem ends_removeBindingNoted (hJ : Upheld id J E) (hw : Traced t₀ r₀ id (pass, h) w) (hj : J h w)
    (hl : Listed id w β b) : (removeBindingNoted id b h).Ends w (fun r w' =>
      Traced t₀ r₀ id (pass, r.2) w' ∧ J r.2 w' ∧ Edits w w' ∧ (r.1 = false → w' = w ∧ r.2 = h ∧
        (w.tree.Below w.tree.root b.path → (w.analysis id).Declines w.tree b)) ∧
        (r.1 = true → r.2.excisions ≠ [])) E := by
  rw [removeBindingNoted, ends_bind, ends_get, ends_bind]
  refine ((hJ.excise hj hl).and (ends_removeBinding_any hl)).mono (fun done w' hdone => ?_)
    fun _ _ he => he.1
  obtain ⟨hkeep, hexcised, hdeclines⟩ := hdone
  rw [ends_bind, ends_get, ends_pure]
  cases done with
  | true =>
    have hx := hexcised rfl
    exact ⟨hw.excise hx, hkeep rfl, hx.edits, fun h => (by cases h), fun _ => by simp [History.excise]⟩
  | false =>
    obtain ⟨rfl, hdecl⟩ := hdeclines rfl
    exact ⟨hw, hj, .refl, fun _ => ⟨rfl, rfl, hdecl⟩, fun h => (by cases h)⟩

/-- The list of unreferenced bindings is drawn up once; what it says stays true during the reduction. -/
theorem ends_reduceScopeNoted (hJ : Upheld id J E) (hw : Traced t₀ r₀ id (pass, h) w) (hj : J h w)
    (hc : (w.analysis id).version ≠ none) (s : ScopeId) : (reduceScopeNoted id s h).Ends w (fun r w' =>
      Traced t₀ r₀ id (pass, r.2) w' ∧ J r.2 w' ∧ Remains w.tree w'.tree ∧ (r.1 = 0 → w' = w ∧ r.2 = h ∧
        (w.analysis id).Inert w.tree s) ∧ (r.1 ≠ 0 → r.2.excisions ≠ [])) E := by
  rw [reduceScopeNoted, ends_bind, ends_get]
  have hloop := ends_foldlM_all (w := w) (s := ((0, h) : Nat × History)) (E := E)
    (I := fun r w' => Traced t₀ r₀ id (pass, r.2) w' ∧ J r.2 w' ∧ Edits w w' ∧
      (r.1 = 0 → w' = w ∧ r.2 = h) ∧ (r.1 ≠ 0 → r.2.excisions ≠ []))
    (D := fun β r _ => r.1 = 0 → w.tree.Below w.tree.root ((w.analysis id).binding β).path →
      (w.analysis id).Declines w.tree ((w.analysis id).binding β))
    (f := fun n β => do
      let done ← removeBindingNoted id ((w.analysis id).binding β) n.2
      return (if done.1 then n.1 + 1 else n.1, done.2))
    (l := (w.analysis id).unreferenced s) ?_ ⟨hw, hj, .refl, fun _ => ⟨rfl, rfl⟩, fun h => absurd rfl h⟩
  · refine hloop.imp fun r w' hr => ?_
    obtain ⟨⟨htraced, hj', hedits, hnone, hsome⟩, hall, _⟩ := hr
    refine ⟨htraced, hj', hedits.remains hw.tracks.consistent, fun hzero => ?_, hsome⟩
    obtain ⟨hw', hh⟩ := hnone hzero
    exact ⟨hw', hh, fun β hβ hroot => hall β hβ hzero hroot⟩
  · intro β hβ r u hr
    obtain ⟨htraced, hju, hedits, hnone, hsome⟩ := hr
    have hl := (hw.tracks.listed hc hβ).edits hedits
    rw [ends_bind]
    refine (ends_removeBindingNoted hJ htraced hju hl).imp fun done w' hdone => ?_
    obtain ⟨htraced', hj', hedits', hfalse, htrue⟩ := hdone
    rw [ends_pure]
    cases hd : done.1 with
    | true =>
      refine ⟨⟨htraced', hj', hedits.trans hedits', fun h => (by cases h), fun _ => htrue hd⟩,
        fun h => (by cases h), fun _ _ h => (by cases h)⟩
    | false =>
      obtain ⟨rfl, hh, hdecl⟩ := hfalse hd
      refine ⟨⟨htraced', hj', hedits.trans hedits', fun hz => ?_, fun hz => ?_⟩, fun hz => ?_, fun _ hb => hb⟩
      · exact ⟨(hnone hz).1, hh.trans (hnone hz).2⟩
      · rw [hh]
        exact hsome hz
      · rw [(hnone hz).1] at hdecl
        exact hdecl

theorem ends_reduceNoted (hJ : Upheld id J E) (hw : Traced t₀ r₀ id (pass, h) w) (hj : J h w)
    (hc : (w.analysis id).version ≠ none) (ha : h.excisions = [] → w.analysis id = t₀.crawled)
    (s : ScopeId) : (reduceNoted id s pass.settled h).Ends w (fun r w' =>
      Traced t₀ r₀ id ({ pass with settled := r.1.2 }, r.2) w' ∧ J r.2 w' ∧ Remains w.tree w'.tree ∧
        (r.2.excisions = [] → h.excisions = [] ∧ w'.analysis id = t₀.crawled ∧ t₀.crawled.Inert t₀ s)) E := by
  rw [reduceNoted, ends_bind, ends_get]
  refine ends_ite (fun hsettled => ?_) fun _ => ?_
  · refine ⟨hw, hj, .refl hw.tracks.consistent, fun hnone => ⟨hnone, ha hnone, ?_⟩⟩
    rw [ha hnone] at hsettled
    exact (hw.quiet hnone).settled s _ hsettled
  rw [ends_bind]
  refine (ends_reduceScopeNoted hJ hw hj hc s).imp fun r w' hr => ?_
  obtain ⟨htraced, hj', hremains, hzero, hsome⟩ := hr
  refine ends_ite (fun hz => ?_) fun hz => ?_
  · rw [ends_bind, ends_get]
    obtain ⟨rfl, hh, hinert⟩ := hzero hz
    have hinert₀ : h.excisions = [] → t₀.crawled.Inert t₀ s := fun hnone => by
      rw [ha hnone, (hw.quiet hnone).tree] at hinert
      exact hinert
    refine ⟨htraced.settle _ fun hnone s' r' hget => ?_, hj', hremains, fun hnone => ?_⟩
    · rw [hh] at hnone
      rw [Table.get?_insert] at hget
      split at hget
      · rename_i he
        exact (ScopeKey.mk.inj he).2.2 ▸ hinert₀ hnone
      · exact (hw.quiet hnone).settled s' r' hget
    · rw [hh] at hnone
      exact ⟨hnone, ha hnone, hinert₀ hnone⟩
  · exact ⟨htraced, hj', hremains, fun hnone => absurd hnone (hsome hz)⟩

theorem ends_enterNoted (hJ : Upheld id J E) (n : NodeId) (hw : Traced t₀ r₀ id p w) (hj : J p.2 w) :
    (enterNoted id n p).Ends w (fun p' w' => Traced t₀ r₀ id p' w' ∧ J p'.2 w' ∧ Remains w.tree w'.tree ∧
      (p'.2.excisions = [] → w'.analysis id = t₀.crawled ∧
        t₀.crawled.Inert t₀ (t₀.crawled.enclosing t₀ n))) E := by
  rw [enterNoted, ends_bind, scopeFor, ends_bind, ends_modify, ends_bind, ends_get, ends_pure, ends_bind]
  refine (ends_reduceNoted hJ hw.refresh (hJ.refresh hw.tracks hj) hw.tracks.crawled_refresh
    hw.analysis_refresh_quiet _).imp fun r w' hr => ?_
  obtain ⟨htraced, hj', hremains, hquiet⟩ := hr
  rw [(refresh_frame w id).1] at hremains
  refine ⟨htraced, hj', hremains, fun hnone => ?_⟩
  obtain ⟨hnone₀, ha, hinert⟩ := hquiet hnone
  refine ⟨ha, ?_⟩
  rwa [hw.analysis_refresh_quiet hnone₀, (hw.refresh.quiet hnone₀).tree] at hinert

/-- The whole walk. -/
theorem ends_walkNoted_traced (ht : w.tree.Consistent) (hJ : Upheld w.startAnalysis.1 J E)
    (hj : J {} w.startAnalysis.2) : (walkNoted w.startAnalysis.1).Ends w.startAnalysis.2 (fun p w' =>
      Traced w.tree w.report w.startAnalysis.1 p w' ∧ J p.2 w' ∧
        ∀ t, Remains w'.tree t → (p.2.sightings.map Sighting.node).filter (w.tree.kept t) =
          w.tree.walk.filter (w.tree.kept t)) E := by
  rw [walkNoted, ends_bind, ends_get]
  have hvisits : (traverse (enterNoted w.startAnalysis.1) (collectNoted w.startAnalysis.1) (w.tree.size + 1)
      ({}, {}) w.tree.root).Ends w.startAnalysis.2 (fun p u =>
        (Traced w.tree w.report w.startAnalysis.1 p u ∧ J p.2 u) ∧ Remains w.tree u.tree ∧
          Saw w.tree (fun p => p.2.sightings.map Sighting.node)
            (w.tree.descend (w.tree.size + 1) w.tree.root) ({}, {}) p u) E := by
    refine ends_traverse_visits (I := fun p u => Traced w.tree w.report w.startAnalysis.1 p u ∧ J p.2 u)
      (K := fun n p u => p.2.excisions = [] → u.analysis w.startAnalysis.1 = w.tree.crawled ∧
        w.tree.crawled.Inert w.tree (w.tree.crawled.enclosing w.tree n))
      ht (fun p u hu => hu.1.remains) (fun n p u hu _ => ?_) (fun n p u hu hK hn => ?_) _ ⟨.start ht, hj⟩
    · refine ((ends_enterNoted hJ n hu.1 hu.2).and (ends_enterNoted_notes _ n p)).mono (fun p' u' h => ?_)
        fun _ _ he => he.1
      obtain ⟨⟨htraced, hj', hremains, hquiet⟩, _, hsightings, _⟩ := h
      exact ⟨⟨htraced, hj'⟩, hremains, by rw [hsightings], hquiet⟩
    · refine (ends_collectNoted _ n p).mono (fun p' u' h => ?_) fun _ _ he => he.elim
      obtain ⟨hsame, hhistory, hpass⟩ := h
      have hafter : Traced w.tree w.report w.startAnalysis.1 p u' ∧ J p.2 u' ∧ u'.tree = u.tree ∧
          (p.2.excisions = [] → u'.analysis w.startAnalysis.1 = w.tree.crawled) ∧
          (u'.tree.kind n = .assignmentExpression → (u'.analysis w.startAnalysis.1).version ≠ none) := by
        rcases hsame with ⟨rfl, hk⟩ | rfl
        · exact ⟨hu.1, hu.2, rfl, fun hnone => (hK hnone).1, fun h => absurd h hk⟩
        · exact ⟨hu.1.refresh, hJ.refresh hu.1.tracks hu.2, (refresh_frame u _).1, hu.1.analysis_refresh_quiet,
            fun _ => hu.1.tracks.crawled_refresh⟩
      obtain ⟨htraced, hj', htree, ha, hcrawled⟩ := hafter
      have hn' : u'.tree.contains n = true := htree ▸ hn
      refine ⟨⟨htraced.sight hn' (fun hnone => ⟨ha hnone, (hK hnone).2⟩) ?_ ?_ hhistory, ?_⟩, ?_, ?_⟩
      · rw [hpass]
      · rw [hpass]
      · rw [hhistory]
        exact hJ.sight hj' hn' hcrawled
      · rw [htree]
        exact .refl hu.1.tracks.consistent
      · rw [hhistory, History.sight, List.map_append]
        rfl
  refine hvisits.imp fun p w' h => ?_
  obtain ⟨⟨htraced, hj'⟩, _, new, hnew, hall⟩ := h
  refine ⟨htraced, hj', fun t hr => ?_⟩
  have hall := hall t hr
  rw [descend_mono (Nat.le_succ _) ((Below.refl : w.tree.Below w.tree.root w.tree.root).grounded ht)] at hall
  rw [show p.2.sightings.map Sighting.node = new from hnew]
  exact hall

end Job

end DeadCode
