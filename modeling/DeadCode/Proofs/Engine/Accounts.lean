import DeadCode.Proofs.Engine.Dangling

/-!
Accounts of a run. A construct taken out is one taking, for its binding or in the turn of a candidate. Main statement:
`run_accounts`, the report has one record for each taking, no construct is taken out twice, and so the constructs of
the tree bound the removals and the passes. What the takings between two workspaces come to is `Account`; it grows by a
taking (`Account.take`), and accounts are joined (`Account.trans`).
-/

namespace DeadCode

open DeadCode.Tree Workspace

/-! ## Constructs -/

namespace Tree

/-- An identifier that stands directly in the clause of an import statement. -/
def isDefaultImport (t : Tree) (n : NodeId) : Bool :=
  t.kind n = .identifier && (t.parent n).any fun clause =>
    t.kind clause = .importClause && (t.parent clause).any fun statement => t.kind statement = .importStatement

/-- What a run can take out. -/
def isConstruct (t : Tree) (n : NodeId) : Bool :=
  match t.kind n with
  | .variableDeclarator | .functionDeclaration | .generatorFunctionDeclaration | .importSpecifier
  | .assignmentExpression => true
  | _ => t.isDefaultImport n

def constructs (t : Tree) : List NodeId := t.walk.filter t.isConstruct

variable {t t' : Tree} {n : NodeId}

/-- A construct that remains is one that was there. -/
theorem Remains.isConstruct (h : Remains t t') (ht : t.Consistent) (hroot : t'.Below t'.root n)
    (hc : t'.isConstruct n = true) : n < t.size ∧ t.isConstruct n = true := by
  have hlt : n < t.size := by
    by_contra hge
    have hk := h.fresh_kind n (not_lt.mp hge) (hroot.lt_size h.consistent)
    simp [Tree.isConstruct, isDefaultImport, hk] at hc
  have hdefault : t'.isDefaultImport n = t.isDefaultImport n := by
    unfold isDefaultImport
    rw [h.kind_eq n hlt, h.parent_eq n hlt hroot]
    cases hp : t.parent n with
    | none => rfl
    | some clause =>
      have hclause := hroot.of_child h.consistent ((h.parent_eq n hlt hroot).trans hp)
      have hlt' := ht.parent_lt hp
      simp only [Option.any_some]
      rw [h.kind_eq clause hlt', h.parent_eq clause hlt' hclause]
      cases hs : t.parent clause with
      | none => rfl
      | some statement =>
        simp only [Option.any_some]
        rw [h.kind_eq statement (ht.parent_lt hs)]
  unfold Tree.isConstruct at hc ⊢
  rw [h.kind_eq n hlt, hdefault] at hc
  exact ⟨hlt, hc⟩

theorem mem_constructs_iff (ht : t.Consistent) :
    n ∈ t.constructs ↔ t.Below t.root n ∧ t.isConstruct n = true := by
  rw [constructs, List.mem_filter, mem_walk_iff ht]

end Tree

/-- Between the two moments a construct left. -/
structure Taking where
  node : NodeId
  before : Workspace
  after : Workspace

def Excision.taking (x : Excision) : Taking := ⟨x.binding.path, x.before, x.after⟩

def Turn.taking (u : Turn) : Taking := ⟨u.assignment, u.before, u.after⟩

/-- What a pass took out, in order. -/
def History.takings (h : History) : List Taking :=
  h.excisions.map Excision.taking ++ (h.turns.filter Turn.removed).map Turn.taking

/-- A construct of the tree leaves, which adds one record. -/
structure Taking.Fair (x : Taking) : Prop where
  consistent : x.before.tree.Consistent
  construct : x.before.tree.isConstruct x.node = true
  attached : x.before.tree.Below x.before.tree.root x.node
  remains : Remains x.before.tree x.after.tree
  detached : ¬ x.after.tree.Below x.after.tree.root x.node
  recorded : ∃ r, x.after.report = x.before.report.record r

variable {w w' u v : Workspace} {id : AnalysisId} {x : Taking} {xs ys : List Taking} {h : History} {b : Binding}

/-- What was taken out is in no later tree. -/
theorem Taking.Fair.gone (hx : x.Fair) {t : Tree} (hr : Remains x.after.tree t) : t.contains x.node = false := by
  have hlt : x.node < x.after.tree.size :=
    lt_of_lt_of_le (hx.attached.lt_size hx.consistent) hx.remains.size_le
  by_contra hin
  exact hx.detached (hr.attached _ hlt ((contains_iff_below hr.consistent).mp (by simpa using hin)))

/-- The takings that lead from one workspace to another. -/
structure Account (w : Workspace) (xs : List Taking) (w' : Workspace) : Prop where
  remains : Remains w.tree w'.tree
  fair : ∀ x ∈ xs, x.Fair
  before : ∀ x ∈ xs, Remains w.tree x.before.tree
  after : ∀ x ∈ xs, Remains x.after.tree w'.tree
  order : xs.Pairwise fun x y => Remains x.after.tree y.before.tree
  records : ∃ rs, w'.report.removals = w.report.removals ++ rs ∧
    List.Forall₂ (fun r x => x.after.report = x.before.report.record r) rs xs

namespace Account

theorem refl (ht : w.tree.Consistent) : Account w [] w where
  remains := .refl ht
  fair _ hx := absurd hx List.not_mem_nil
  before _ hx := absurd hx List.not_mem_nil
  after _ hx := absurd hx List.not_mem_nil
  order := .nil
  records := ⟨[], (List.append_nil _).symm, .nil⟩

theorem take (hx : x.Fair) : Account x.before [x] x.after where
  remains := hx.remains
  fair y hy := by
    obtain rfl := List.mem_singleton.mp hy
    exact hx
  before y hy := by
    obtain rfl := List.mem_singleton.mp hy
    exact .refl hx.consistent
  after y hy := by
    obtain rfl := List.mem_singleton.mp hy
    exact .refl hx.remains.consistent
  order := List.pairwise_singleton _ _
  records := by
    obtain ⟨r, hr⟩ := hx.recorded
    exact ⟨[r], by rw [hr]; rfl, .cons hr .nil⟩

theorem trans (h : Account w xs u) (h' : Account u ys v) : Account w (xs ++ ys) v where
  remains := h.remains.trans h'.remains
  fair x hx := (List.mem_append.mp hx).elim (h.fair x) (h'.fair x)
  before x hx := (List.mem_append.mp hx).elim (h.before x) fun hx => h.remains.trans (h'.before x hx)
  after x hx := (List.mem_append.mp hx).elim (fun hx => (h.after x hx).trans h'.remains) (h'.after x)
  order := List.pairwise_append.mpr ⟨h.order, h'.order, fun x hx y hy => (h.after x hx).trans (h'.before y hy)⟩
  records := by
    obtain ⟨rs, hrs, hall⟩ := h.records
    obtain ⟨rs', hrs', hall'⟩ := h'.records
    exact ⟨rs ++ rs', by rw [hrs', hrs, List.append_assoc], List.rel_append hall hall'⟩

/-- Only the tree and the records matter. -/
theorem congr (h : Account w xs u) (htree : v.tree = u.tree) (hrecords : v.report.removals = u.report.removals) :
    Account w xs v where
  remains := htree ▸ h.remains
  fair := h.fair
  before := h.before
  after := htree ▸ h.after
  order := h.order
  records := hrecords ▸ h.records

theorem congr_left (h : Account u xs v) (htree : w.tree = u.tree)
    (hrecords : w.report.removals = u.report.removals) : Account w xs v where
  remains := htree ▸ h.remains
  fair := h.fair
  before := htree ▸ h.before
  after := h.after
  order := h.order
  records := hrecords ▸ h.records

/-! ## What an account comes to -/

theorem total_eq (h : Account w xs w') : w'.report.total = w.report.total + xs.length := by
  obtain ⟨rs, hrs, hall⟩ := h.records
  rw [Report.total, Report.total, hrs, List.length_append, hall.length_eq]

theorem mem_constructs (h : Account w xs w') (ht : w.tree.Consistent) (hx : x ∈ xs) :
    x.node ∈ w.tree.constructs := by
  have hfair := h.fair x hx
  obtain ⟨hlt, hc⟩ := (h.before x hx).isConstruct ht hfair.attached hfair.construct
  exact (mem_constructs_iff ht).mpr ⟨(h.before x hx).attached _ hlt hfair.attached, hc⟩

theorem detached_later (h : Account w xs w') : xs.Pairwise fun x y =>
    y.before.tree.contains x.node = false ∧ y.after.tree.contains x.node = false := by
  refine h.order.imp_of_mem fun {x y} hx hy hxy => ?_
  exact ⟨(h.fair x hx).gone hxy, (h.fair x hx).gone (hxy.trans (h.fair y hy).remains)⟩

theorem nodup (h : Account w xs w') : (xs.map Taking.node).Nodup := by
  refine List.pairwise_map.mpr (h.detached_later.imp_of_mem fun {x y} _ hy hxy he => ?_)
  have hy := h.fair y hy
  rw [he, (contains_iff_below hy.consistent).mpr hy.attached] at hxy
  exact absurd hxy.1 (by decide)

theorem length_le (h : Account w xs w') (ht : w.tree.Consistent) : xs.length ≤ w.tree.constructs.length := by
  have hsub : xs.map Taking.node ⊆ w.tree.constructs := fun n hn => by
    obtain ⟨x, hx, rfl⟩ := List.mem_map.mp hn
    exact h.mem_constructs ht hx
  simpa using (h.nodup.subperm hsub).length_le

end Account

/-! ## The takings of a pass -/

theorem Excised.fair (hx : Excised b w w') (ht : w.tree.Consistent) : (Excision.taking ⟨b, w, w'⟩).Fair where
  consistent := ht
  construct := by
    have hp := hx.placed
    unfold Binding.Placed at hp
    change w.tree.isConstruct b.path = true
    unfold isConstruct
    cases hc : b.construct with
    | declarator =>
      rw [hc] at hp
      rw [hp]
    | function =>
      rw [hc] at hp
      rcases hp with hp | hp <;> rw [hp]
    | importSpecifier =>
      rw [hc] at hp
      rw [hp.1]
    | importDefault =>
      rw [hc] at hp
      obtain ⟨hk, clause, statement, hclause, hkc, hstatement, hks⟩ := hp
      simp [hk, isDefaultImport, hclause, hkc, hstatement, hks]
    | other => exact absurd hc hx.removable
  attached := hx.attached
  remains := hx.edits.remains ht
  detached := hx.detached
  recorded := hx.recorded

/-- The takings of a walk so far. -/
theorem Account.upheld (w₀ : Workspace) :
    Upheld id (fun h w => Account w₀ (h.excisions.map Excision.taking) w) Job.Whatever where
  refresh {h w} _ ha := by
    obtain ⟨htree, _, _, hreport⟩ := refresh_frame w id
    exact ha.congr htree (by rw [hreport])
  excise {h w β b} ha hl := by
    refine (Job.ends_removeBinding_any hl).imp fun done w' hdone hd => ?_
    have hfair := (hdone.1 hd).fair hl.tracks.consistent
    rw [History.excise, List.map_append]
    exact ha.trans (.take hfair)
  sight ha _ _ := ha

theorem Job.TakesTurn.fair {name : String} {n : NodeId} (h : TakesTurn w name n true w') (ht : w.tree.Consistent)
    (hk : w.tree.kind n = .assignmentExpression) : (Turn.taking ⟨name, n, w, w', true⟩).Fair := by
  rcases h with ⟨_, s, q, t, hs, hroot, hq, hcut, rfl⟩ | ⟨hfalse, _⟩
  · obtain ⟨gone, hcut⟩ := hcut.cut
    have hr : Remains w.tree ((w.settle t s).record name .assignment s).tree := by
      change Remains w.tree (w.settle t s).tree
      rw [tree_settle]
      exact hcut.remains ht
    refine ⟨ht, ?_, .step hs hroot, hr, fun hb => ?_, ?_⟩
    · change w.tree.isConstruct n = true
      unfold isConstruct
      rw [hk]
    · -- with the statement all in it has left
      have hb := (hr.below_of_below ht (lt_size_of_parent hs) hb (.of_parent hs)).2
      change (w.settle t s).tree.Below (w.settle t s).tree.root s at hb
      rw [tree_settle] at hb
      exact hcut.not_below_gone ht (lt_size_of_parent hq) hb hcut.node_mem .refl
    · exact ⟨_, congrArg (Report.record · _) (settle_frame w t s).2.2.2⟩
  · cases hfalse

theorem Turns.account {us : List Turn} (h : Turns w us w') (ht : w.tree.Consistent)
    (hk : ∀ u ∈ us, u.assignment < w.tree.size ∧ w.tree.kind u.assignment = .assignmentExpression) :
    Account w ((us.filter Turn.removed).map Turn.taking) w' := by
  induction h with
  | nil => exact .refl ht
  | @cons u us w' _ hturn _ ih =>
    have hr := hturn.edits.remains ht
    have hrest := ih hr.consistent fun x hx => by
      obtain ⟨hlt, hkx⟩ := hk x (List.mem_cons_of_mem u hx)
      exact ⟨lt_of_lt_of_le hlt hr.size_le, (hr.kind_eq _ hlt).trans hkx⟩
    cases hdone : u.removed with
    | true =>
      rw [List.filter_cons_of_pos hdone, List.map_cons]
      have hfair := (hdone ▸ hturn).fair ht (hk u List.mem_cons_self).2
      exact (Account.take hfair).trans hrest
    | false =>
      rw [List.filter_cons_of_neg (by simp [hdone])]
      rcases hturn with ⟨htrue, _⟩ | ⟨_, hafter, _⟩
      · rw [hdone] at htrue
        cases htrue
      · rw [hafter] at hrest
        exact hrest

/-! ## Passes and runs -/

namespace Job

theorem Passage.account {p : Pass × History} (hp : Passage id w p u v h)
    (ha : Account w (p.2.excisions.map Excision.taking) u) : Account w h.takings v := by
  have hu := hp.traced.remains.consistent
  have hturns : Account (u.leave (.analysis id)) ((h.turns.filter Turn.removed).map Turn.taking) v := by
    refine hp.turns.account hu fun t ht => ?_
    obtain ⟨⟨_, s, _, hs, hn, hassigns, _⟩, _⟩ := (hp.candidate_iff t.name t.assignment).mp ⟨t, ht, rfl, rfl⟩
    have hmem : s ∈ p.2.sightings := hp.sightings ▸ hs ▸ List.mem_append_right _ List.mem_cons_self
    have hprec := hp.traced.sighted s hmem
    have hlt := hprec.attached.lt_size hprec.consistent
    rw [← hn]
    exact ⟨lt_of_lt_of_le hlt hprec.remains.size_le, (hprec.remains.kind_eq _ hlt).trans hassigns.1.kind⟩
  have hexcisions : h.excisions = p.2.excisions := by rw [hp.history]
  rw [History.takings, hexcisions]
  exact ha.trans (hturns.congr_left rfl rfl)

theorem ends_runPassNoted_account (ht : w.tree.Consistent) : runPassNoted.Ends w (fun r w' =>
    Account w r.2.takings w' ∧ r.1 = r.2.takings.length ∧ w'.report.passes = w.report.passes + 1) Whatever := by
  have hstart : Account w [] w.startAnalysis.2 := (Account.refl ht).congr rfl rfl
  refine (ends_runPassNoted_passage (P := True) ht (Account.upheld w) hstart
    fun _ _ _ _ _ _ _ _ _ => ends_whatever _).imp fun r w' hpass => ?_
  obtain ⟨p, u, v, hp, ha, _, rfl, hcount⟩ := hpass
  have haccount := hp.account ha
  have hpasses : v.report.passes = w.report.passes := hp.turns.report.2.trans hp.traced.recorded.2
  refine ⟨haccount.congr rfl rfl, ?_, congrArg (· + 1) hpasses⟩
  rw [hcount, haccount.total_eq, Nat.add_sub_cancel_left]

/-- Each pass but the last took something out, and the accounts of the passes add up. -/
theorem ends_runPassesNoted_account (fuel : Nat) (ht : w.tree.Consistent) : (runPassesNoted fuel).Ends w
    (fun hs w' => Account w (hs.flatMap History.takings) w' ∧
      w'.report.passes = w.report.passes + hs.length ∧ hs.length ≤ fuel ∧
      ∀ h ∈ hs.dropLast, h.takings ≠ []) Whatever := by
  induction fuel generalizing w with
  | zero => exact ⟨.refl ht, rfl, le_rfl, fun h hh => absurd hh List.not_mem_nil⟩
  | succ fuel ih =>
    rw [runPassesNoted, ends_bind]
    refine (ends_runPassNoted_account ht).imp fun r u hu => ends_ite (fun _ => ?_) fun hz => ?_
    · obtain ⟨ha, _, hpasses⟩ := hu
      refine ⟨?_, hpasses, by simp, fun h hh => absurd hh List.not_mem_nil⟩
      rw [List.flatMap_singleton]
      exact ha
    · obtain ⟨ha, hcount, hpasses⟩ := hu
      rw [ends_bind]
      refine (ih ha.remains.consistent).imp fun hs w' hrest => ?_
      obtain ⟨ha', hpasses', hle, hall⟩ := hrest
      refine ⟨ha.trans ha', ?_, by simpa using hle, fun h hh => ?_⟩
      · rw [hpasses', hpasses, List.length_cons]
        omega
      · cases hs with
        | nil => exact absurd hh List.not_mem_nil
        | cons h' hs =>
          rw [List.dropLast_cons_cons] at hh
          rcases List.mem_cons.mp hh with rfl | hh
          · exact fun hnil => hz (by rw [hcount, hnil]; rfl)
          · exact hall h hh

end Job

/-- Passes are no more than takings and one. -/
theorem length_le_takings {hs : List History} (h : ∀ h ∈ hs.dropLast, h.takings ≠ []) :
    hs.length ≤ (hs.flatMap History.takings).length + 1 := by
  induction hs with
  | nil => exact Nat.zero_le _
  | cons h₁ hs ih =>
    cases hs with
    | nil => exact Nat.le_add_left _ _
    | cons h₂ hs =>
      rw [List.dropLast_cons_cons] at h
      have hpos := List.length_pos_iff.mpr (h h₁ List.mem_cons_self)
      have hrest := ih fun h' hh => h h' (List.mem_cons_of_mem h₁ hh)
      rw [List.flatMap_cons, List.length_append, List.length_cons]
      omega

/-- The records of a report and the constructs that the run took out correspond one to one, in order. Each construct
was in the tree just before it left and is in it at no later time. So the constructs of the tree bound the records, and
the passes up to one. -/
theorem run_accounts (e : Engine) (w w' : Workspace) (report : Report) (ht : w.tree.Consistent)
    (hrun : e.run w = .ok report w') : ∃ hs takings, e.runNoted w = .ok (report, hs) w' ∧
      takings = hs.flatMap History.takings ∧
      List.Forall₂ (fun r x => x.after.report = x.before.report.record r) report.removals takings ∧
      (∀ x ∈ takings, x.node ∈ w.tree.constructs ∧ x.before.tree.contains x.node = true ∧
        x.after.tree.contains x.node = false ∧ w'.tree.contains x.node = false) ∧
      takings.Pairwise (fun x y => x.node ≠ y.node ∧ y.before.tree.contains x.node = false ∧
        y.after.tree.contains x.node = false) ∧
      report.total ≤ w.tree.constructs.length ∧ report.passes = hs.length ∧
      (report.passes : Int) ≤ min e.maxPasses (w.tree.constructs.length + 1) ∧
      ∀ h ∈ hs.dropLast, h.takings ≠ [] := by
  obtain ⟨hs, hnoted⟩ := Engine.run_eq_ok_iff.mp hrun
  have hends : e.runNoted.Ends w (fun r w' => r.1 = w'.report ∧
      Account { w with report := {} } (r.2.flatMap History.takings) w' ∧
      w'.report.passes = r.2.length ∧ r.2.length ≤ e.passLimit w.tree ∧
      ∀ h ∈ r.2.dropLast, h.takings ≠ []) Job.Whatever := by
    rw [Engine.runNoted, Job.ends_bind, Job.ends_modify, Job.ends_bind, Job.ends_get, Job.ends_bind]
    refine (Job.ends_runPassesNoted_account (w := { w with report := {} }) _ ht).imp fun hs w' h => ?_
    exact ⟨rfl, h.1, h.2.1.trans (Nat.zero_add _), h.2.2⟩
  obtain ⟨hreport, ha, hpasses, hlimit, hall⟩ := hends.of_ok hnoted
  obtain rfl : report = w'.report := hreport
  have htotal : w'.report.total = (hs.flatMap History.takings).length := ha.total_eq.trans (Nat.zero_add _)
  have hle : (hs.flatMap History.takings).length ≤ w.tree.constructs.length := ha.length_le ht
  have hpassed : hs.length ≤ (hs.flatMap History.takings).length + 1 := length_le_takings hall
  have hmax : (e.passLimit w.tree : Int) ≤ e.maxPasses := by
    have := e.maxPasses_pos
    unfold Engine.passLimit
    split <;> omega
  refine ⟨hs, _, hnoted, rfl, ?_, fun x hx => ?_, ?_, htotal ▸ hle, hpasses, ?_, hall⟩
  · obtain ⟨rs, hrs, hrecords⟩ := ha.records
    rw [hrs]
    exact hrecords
  · have hfair := ha.fair x hx
    exact ⟨ha.mem_constructs ht hx, (contains_iff_below hfair.consistent).mpr hfair.attached,
      hfair.gone (.refl hfair.remains.consistent), hfair.gone (ha.after x hx)⟩
  · exact (List.pairwise_map.mp ha.nodup).imp₂ (fun _ _ hne hlater => ⟨hne, hlater⟩) ha.detached_later
  · have hlimit : hs.length ≤ e.passLimit w.tree := hlimit
    have hpasses : w'.report.passes = hs.length := hpasses
    exact Int.le_min.mpr ⟨by omega, by omega⟩

/-- `let a = 1; let b = 2; b; c = 3;` has three constructs. Two of them leave in the first of two passes. -/
theorem run_accounts_smallProgram : ∃ report w', ∃ (hs : List History) (takings : List Taking),
    ({ untilStable := true } : Engine).run { tree := smallProgram } = .ok report w' ∧
      takings = hs.flatMap History.takings ∧ takings.map Taking.node = [3, 17] ∧
      List.Forall₂ (fun r x => x.after.report = x.before.report.record r) report.removals takings ∧
      (∀ x ∈ takings, x.before.tree.contains x.node = true ∧ w'.tree.contains x.node = false) ∧
      smallProgram.constructs = [3, 9, 17] ∧ report.passes = 2 ∧ report.total ≤ 3 := by
  have hout : answer? (({ untilStable := true } : Engine).runNoted { tree := smallProgram }) (fun r _ =>
      ((r.2.flatMap History.takings).map Taking.node, r.1.passes)) = some ([3, 17], 2) := by decide +kernel
  obtain ⟨⟨report, hs⟩, w', hnoted, hout⟩ := answer?_eq_some.mp hout
  obtain ⟨hnodes, hpasses⟩ := Prod.mk.inj hout
  have hrun := Engine.run_eq_ok_iff.mpr ⟨hs, hnoted⟩
  obtain ⟨hs', takings, hnoted', htakings, hrecords, hall, _, htotal, _⟩ :=
    run_accounts _ _ w' report (by decide +kernel) hrun
  obtain rfl : hs = hs' := by
    rw [hnoted] at hnoted'
    cases hnoted'
    rfl
  have hconstructs : smallProgram.constructs = [3, 9, 17] := by decide +kernel
  refine ⟨report, w', hs, takings, hrun, htakings, htakings ▸ hnodes, hrecords, fun x hx => ?_, hconstructs, hpasses, ?_⟩
  · exact ⟨(hall x hx).2.1, (hall x hx).2.2.2⟩
  · change report.total ≤ smallProgram.constructs.length at htotal
    rwa [hconstructs] at htotal

end DeadCode
