import Mathlib.Data.Option.Basic
import DeadCode.Proofs.Engine.History
import DeadCode.Proofs.Engine.Removals
import DeadCode.Proofs.Tables

/-!
Candidates for removal. What the collector holds after a walk depends on the sightings alone
(`collected_see`): the candidate of a name is its last assignment, unless the name was read. A
candidate that is still in place takes nothing with it that anything refers to
(`ends_removeCandidate_assigns`).
-/

namespace DeadCode

open DeadCode.Tree Workspace

/-! ## Sightings -/

/-- A statement of its own of the form `name = number`. -/
structure Tree.Assigns (t : Tree) (n : NodeId) (name : String) : Prop where
  kind : t.kind n = .assignmentExpression
  statement : ∃ s, t.parent n = some s ∧ t.kind s = .expressionStatement
  operator : ∃ o, ((t.children n).find? fun c => !(t.node c).named) = some o ∧ t.text o = "="
  left : ∃ l, t.child? n .left = some l ∧ t.kind l = .identifier ∧ t.text l = name
  right : ∃ r, t.child? n .right = some r ∧ t.kind r = .number

theorem Tree.danglingName?_eq_some_iff {t : Tree} {a : Analysis} {s : ScopeId} {n : NodeId} {name : String}
    (hk : t.kind n = .assignmentExpression) :
    t.danglingName? a s n = some name ↔ t.Assigns n name ∧ a.bound s name = false := by
  constructor
  · intro h
    simp only [danglingName?, Option.bind_eq_bind, Option.bind_eq_some_iff, Option.guard_eq_some',
      exists_const] at h
    obtain ⟨p, hp, hkp, o, ho, heq, l, hl, r, hr, ⟨hkl, hkr⟩, hb, hname⟩ := h
    obtain rfl := Option.some.inj hname
    exact ⟨⟨hk, ⟨p, hp, hkp⟩, ⟨o, ho, heq⟩, ⟨l, hl, hkl, rfl⟩, ⟨r, hr, hkr⟩⟩, by simpa using hb⟩
  · rintro ⟨⟨_, ⟨p, hp, hkp⟩, ⟨o, ho, heq⟩, ⟨l, hl, hkl, rfl⟩, ⟨r, hr, hkr⟩⟩, hb⟩
    simp [danglingName?, hp, hkp, ho, heq, hl, hkl, hr, hkr, hb, guard]

namespace Sighting

def scope (s : Sighting) : ScopeId := s.analysis.enclosing s.tree s.node

/-- The node assigns to a name that is unbound and not built in. -/
def Assigns (s : Sighting) (name : String) : Prop :=
  s.tree.Assigns s.node name ∧ s.analysis.bound s.scope name = false

/-- The node spells a name and is not the target of an assignment. -/
def Reads (s : Sighting) (name : String) : Prop :=
  (s.tree.kind s.node).spellsName = true ∧ s.tree.text s.node = name ∧
    s.tree.isAssignmentTarget s.node = false

theorem Assigns.unique {s : Sighting} {x y : String} (hx : s.Assigns x) (hy : s.Assigns y) : x = y := by
  obtain ⟨l, hl, _, rfl⟩ := hx.1.left
  obtain ⟨l', hl', _, rfl⟩ := hy.1.left
  rw [hl] at hl'
  rw [Option.some.inj hl']

theorem Assigns.not_reads {s : Sighting} {x y : String} (h : s.Assigns x) : ¬ s.Reads y := by
  rintro ⟨hk, _, _⟩
  rw [h.1.kind] at hk
  cases hk

end Sighting

/-- The last sighting that assigns to the name is that of `n`. -/
def LastAssigned (ss : List Sighting) (name : String) (n : NodeId) : Prop :=
  ∃ earlier s later, ss = earlier ++ s :: later ∧ s.node = n ∧ s.Assigns name ∧
    ∀ s' ∈ later, ¬ s'.Assigns name

theorem lastAssigned_concat {ss : List Sighting} {s : Sighting} {name : String} {n : NodeId} :
    LastAssigned (ss ++ [s]) name n ↔
      s.Assigns name ∧ s.node = n ∨ ¬ s.Assigns name ∧ LastAssigned ss name n := by
  constructor
  · rintro ⟨earlier, s', later, he, hn, ha, hlater⟩
    rcases List.eq_nil_or_concat later with rfl | ⟨later, z, rfl⟩
    · obtain ⟨_, hs⟩ := List.append_inj' he rfl
      cases hs
      exact .inl ⟨ha, hn⟩
    · rw [List.concat_eq_append, ← List.cons_append, ← List.append_assoc] at he
      obtain ⟨rfl, hz⟩ := List.append_inj' he rfl
      cases hz
      exact .inr ⟨hlater s (by simp), earlier, s', later, rfl, hn, ha, fun x hx => hlater x (by simp [hx])⟩
  · rintro (⟨ha, hn⟩ | ⟨hna, earlier, s', later, rfl, hn, ha, hlater⟩)
    · exact ⟨ss, s, [], rfl, hn, ha, fun _ h => absurd h List.not_mem_nil⟩
    · refine ⟨earlier, s', later ++ [s], by simp, hn, ha, fun x hx => ?_⟩
      rcases List.mem_append.mp hx with hx | hx
      · exact hlater x hx
      · rw [List.mem_singleton.mp hx]
        exact hna

/-! ## The collector -/

namespace Collector

/-- One step of the collector. -/
def see (c : Collector) (s : Sighting) : Collector :=
  if s.tree.kind s.node = .assignmentExpression then c.visitAssignment s.tree s.analysis s.scope s.node
  else if (s.tree.kind s.node).spellsName then c.visitName s.tree s.node
  else c

/-- The collector holds what follows from the sightings. -/
structure Collected (ss : List Sighting) (c : Collector) : Prop where
  read : ∀ x, x ∈ c.read ↔ ∃ s ∈ ss, s.Reads x
  candidate : ∀ x n, c.candidates.get? x = some n ↔ LastAssigned ss x n ∧ ∀ s ∈ ss, ¬ s.Reads x
  distinct : c.candidates.Distinct

variable {ss : List Sighting} {s : Sighting} {c : Collector}

theorem collected_nil : Collected [] {} := by
  refine ⟨fun x => by simp, fun x n => ⟨fun h => (by cases h), ?_⟩, List.nodup_nil⟩
  rintro ⟨⟨earlier, s, later, he, _⟩, _⟩
  exact absurd he (by simp)

/-- A sighting that neither assigns nor reads changes nothing. -/
theorem Collected.pass (h : Collected ss c) (ha : ∀ x, ¬ s.Assigns x) (hr : ∀ x, ¬ s.Reads x) :
    Collected (ss ++ [s]) c where
  read x := by
    rw [h.read]
    simp [or_and_right, exists_or, hr]
  candidate x n := by
    rw [h.candidate, lastAssigned_concat]
    simp [ha, hr, or_imp, forall_and]
  distinct := h.distinct

theorem Collected.register (h : Collected ss c) {name : String} (ha : s.Assigns name)
    (hread : name ∉ c.read) : Collected (ss ++ [s]) (c.register name s.node) where
  read x := by
    change x ∈ c.read ↔ _
    rw [h.read]
    simp [or_and_right, exists_or, ha.not_reads]
  candidate x n := by
    have hnone : ∀ x, (∀ s' ∈ ss ++ [s], ¬ s'.Reads x) ↔ ∀ s' ∈ ss, ¬ s'.Reads x := fun x => by
      simp [or_imp, forall_and, ha.not_reads]
    rw [hnone, lastAssigned_concat, Collector.register, Table.get?_insert]
    by_cases hx : name = x
    · subst hx
      have hnr : ∀ s' ∈ ss, ¬ s'.Reads name := fun s' hs' hr => hread ((h.read name).mpr ⟨s', hs', hr⟩)
      simpa [ha] using fun _ => hnr
    · have hna : ¬ s.Assigns x := fun hx' => hx (ha.unique hx')
      rw [if_neg hx, h.candidate]
      simp [hna]
  distinct := h.distinct.insert _ _

theorem Collected.refuse (h : Collected ss c) {name : String} (ha : s.Assigns name) (hread : name ∈ c.read) :
    Collected (ss ++ [s]) c where
  read x := by
    rw [h.read]
    simp [or_and_right, exists_or, ha.not_reads]
  candidate x n := by
    rw [h.candidate, lastAssigned_concat]
    by_cases hx : name = x
    · subst hx
      obtain ⟨s', hs', hr⟩ := (h.read name).mp hread
      exact ⟨fun hc => absurd hr (hc.2 s' hs'), fun hc => absurd hr (hc.2 s' (List.mem_append_left _ hs'))⟩
    · have hna : ¬ s.Assigns x := fun hx' => hx (ha.unique hx')
      simp [hna, or_imp, forall_and, ha.not_reads]
  distinct := h.distinct

theorem Collected.cancel (h : Collected ss c) {name : String} (hr : s.Reads name) :
    Collected (ss ++ [s]) ({ c with read := name :: c.read }.cancel name) where
  read x := by
    have hs : s.Reads x ↔ x = name :=
      ⟨fun hx => hx.2.1.symm.trans hr.2.1, fun hx => hx ▸ hr⟩
    change x ∈ name :: c.read ↔ _
    simp [h.read, or_and_right, exists_or, hs, or_comm]
  candidate x n := by
    have hna : ¬ s.Assigns x := fun ha => ha.not_reads hr
    rw [Collector.cancel, Table.get?_erase, lastAssigned_concat]
    by_cases hx : name = x
    · subst hx
      simp [hr]
    · have hnr : ¬ s.Reads x := fun hx' => hx (hr.2.1.symm.trans hx'.2.1)
      rw [if_neg hx, h.candidate]
      simp [hna, hnr, or_imp, forall_and]
  distinct := h.distinct.erase _

theorem collected_see (h : Collected ss c) (s : Sighting) : Collected (ss ++ [s]) (c.see s) := by
  unfold see
  split
  · rename_i hk
    have hnr : ∀ x, ¬ s.Reads x := fun x hr => by
      rw [Sighting.Reads, hk] at hr
      exact absurd hr.1 Bool.false_ne_true
    have hiff : ∀ x, s.tree.danglingName? s.analysis s.scope s.node = some x ↔ s.Assigns x :=
      fun x => danglingName?_eq_some_iff hk
    unfold visitAssignment acceptsAssignment
    cases hd : s.tree.danglingName? s.analysis s.scope s.node with
    | none =>
      refine h.pass (fun x ha => ?_) hnr
      rw [(hiff x).mpr ha] at hd
      cases hd
    | some name =>
      have ha := (hiff name).mp hd
      by_cases hread : name ∈ c.read
      · rw [Option.filter_some, if_neg (by simpa using hread)]
        exact h.refuse ha hread
      · rw [Option.filter_some, if_pos (by simpa using hread)]
        exact h.register ha hread
  · rename_i hk
    have hna : ∀ x, ¬ s.Assigns x := fun x ha => hk ha.1.kind
    split
    · rename_i hspells
      unfold visitName
      split
      · rename_i htarget
        refine h.pass hna fun x hr => ?_
        rw [hr.2.2] at htarget
        cases htarget
      · rename_i htarget
        exact h.cancel ⟨hspells, rfl, by simpa using htarget⟩
    · rename_i hspells
      exact h.pass hna fun x hr => hspells hr.1

end Collector

variable {P X : Prop} {id : AnalysisId} {w w' : Workspace} {name : String} {n : NodeId}

namespace Job

/-- What a sighting adds to the tables of a pass and to its history. The workspace changes only by a crawl, which
an assignment may bring about. -/
theorem ends_collectNoted (id : AnalysisId) (n : NodeId) (p : Pass × History) :
    (collectNoted id n p).Ends w (fun p' w' =>
      (w' = w ∧ w.tree.kind n ≠ .assignmentExpression ∨ w' = w.refresh id) ∧
        p'.2 = p.2.sight ⟨n, w'.tree, w'.analysis id⟩ ∧
        p'.1 = { p.1 with collector := p.1.collector.see ⟨n, w'.tree, w'.analysis id⟩ }) Never := by
  rw [collectNoted, ends_bind, collect, ends_bind, ends_get]
  refine ends_ite (fun hk => ?_) fun hk => ends_ite (fun hspells => ?_) fun hspells => ?_
  · rw [ends_bind, scopeFor]
    have htree := (refresh_frame w id).1
    refine ⟨.inr rfl, rfl, ?_⟩
    rw [Collector.see, if_pos (by rw [htree]; exact hk)]
    rfl
  · refine ⟨.inl ⟨rfl, hk⟩, rfl, ?_⟩
    rw [Collector.see, if_neg hk, if_pos hspells]
  · refine ⟨.inl ⟨rfl, hk⟩, rfl, ?_⟩
    rw [Collector.see, if_neg hk, if_neg hspells]

/-! ## The turns -/

/-- The statement of a candidate leaves if it is attached, unless it is stuck. -/
def TakesTurn (w : Workspace) (name : String) (n : NodeId) (done : Bool) (w' : Workspace) : Prop :=
  (done = true ∧ ∃ s q t, w.tree.parent n = some s ∧ w.tree.Below w.tree.root s ∧ w.tree.parent s = some q ∧
      StatementCut w.tree t q s ∧ w' = (w.settle t s).record name .assignment s) ∨
    done = false ∧ w' = w ∧ ∀ s, w.tree.parent n = some s → w.tree.Below w.tree.root s → w.tree.Stuck s

/-- A turn fails only if the statement is all there is. -/
theorem ends_removeCandidate (ht : w.tree.Consistent) (name : String) (n : NodeId) :
    (removeCandidate name n).Ends w (TakesTurn w name n) fun _ _ => w.tree.parent n = some w.tree.root := by
  rw [removeCandidate, ends_bind, ends_get]
  simp only []
  split
  · rename_i hp
    exact .inr ⟨rfl, rfl, fun s hs => absurd (hp.symm.trans hs) (by simp)⟩
  · rename_i s hp
    refine ends_ite (fun hout => ?_) fun hin => ?_
    · refine .inr ⟨rfl, rfl, fun s' hs' hroot => ?_⟩
      obtain rfl := Option.some.inj (hp.symm.trans hs')
      rw [(contains_iff_below ht).mpr hroot] at hout
      cases hout
    · have hroot : w.tree.Below w.tree.root s := (contains_iff_below ht).mp (by simpa using hin)
      by_cases hs : s = w.tree.root
      · rw [ends_bind, removeStatement, ends_bind, ends_get]
        have hnone : w.tree.parent s = none := hs ▸ ht.root_parent
        simp only [Tree.removeStatement, hnone]
        exact hs ▸ hp
      · obtain ⟨q, hq, _⟩ := hroot.parent hs
        rw [ends_bind]
        refine (ends_removeStatement ht hq).mono (fun done w' hdone => ?_) fun _ _ h => h.elim
        rcases hdone with ⟨rfl, t, hcut, rfl⟩ | ⟨rfl, rfl, hplace⟩
        · exact .inl ⟨rfl, s, q, t, hp, hroot, hq, hcut, rfl⟩
        · refine .inr ⟨rfl, rfl, fun s' hs' _ => ?_⟩
          obtain rfl := Option.some.inj (hp.symm.trans hs')
          exact ⟨q, hq, hplace⟩

end Job

/-- An assignment in place stays one until it leaves. -/
theorem Tree.Assigns.cut {t t' : Tree} {q m : NodeId} {gone : List NodeId} (ht : t.Consistent)
    (h : Pruning t t' q m gone) (hn : Stays t gone n) (ha : t.Assigns n name) : t'.Assigns n name := by
  have hsite : (t.kind n).isSite = false := by rw [ha.kind]; rfl
  have hchild := fun {f} => (h.child?_of_not_site (f := f) ht hsite).1
  have old : ∀ {c}, c ∈ t.children n → c < t.size := fun hc => lt_size_of_parent ((ht.mem_children n _).mp hc)
  obtain ⟨s, hs, hks⟩ := ha.statement
  obtain ⟨o, ho, htext⟩ := ha.operator
  obtain ⟨l, hl, hkl, htl⟩ := ha.left
  obtain ⟨r, hr, hkr⟩ := ha.right
  have hol := old (List.mem_of_find?_eq_some ho)
  have hll := old (mem_children_of_child? hl)
  refine ⟨(h.cut.kind_eq n (hn.lt_size ht)).trans ha.kind, ⟨s, (h.cut.parent_stays ht hn).trans hs, ?_⟩,
    ⟨o, ?_, (h.cut.text_eq o hol).trans htext⟩, ⟨l, hchild.trans hl, ?_, (h.cut.text_eq l hll).trans htl⟩,
    ⟨r, hchild.trans hr, ?_⟩⟩
  · exact (h.cut.kind_eq s (ht.parent_lt hs)).trans hks
  · rw [h.cut.children_other n (h.ne_of_not_site hsite), ← ho]
    exact Lists.find?_congr fun c hc => by rw [h.cut.named_eq c (old hc)]
  · exact (h.cut.kind_eq l hll).trans hkl
  · exact (h.cut.kind_eq r (old (mem_children_of_child? hr))).trans hkr

/-- As far as an assignment is attached after some prunings, it is still in place. -/
theorem Trims.assigns (h : Trims P X w w') (hw : WellShaped X w.tree) (hn : n < w.tree.size)
    (ha : w.tree.Below w.tree.root n → w.tree.Assigns n name) (hroot : w'.tree.Below w'.tree.root n) :
    w'.tree.Assigns n name := by
  induction h with
  | refl => exact ha hroot
  | report r _ ih => exact ih hroot
  | @settle u t q m gone hpre hp _ _ ih =>
    have hu := hpre.wellShaped hw
    rw [tree_settle] at hroot ⊢
    have hlt := lt_of_lt_of_le hn (hpre.edits.remains hw.consistent).size_le
    have hst := (stays_iff hu.consistent hp.cut hlt).mpr hroot
    exact (ih hst.1).cut hu.consistent hp hst

/-- The statement of an assignment leaves cleanly. -/
theorem clips_assignment (hw : WellShaped X w.tree) (ha : w.tree.Assigns n name) {s q : NodeId}
    (hs : w.tree.parent n = some s) (hroot : w.tree.Below w.tree.root s) {t : Tree}
    (hcut : StatementCut w.tree t q s) : Clips P X w [s] (w.settle t s) := by
  have ht := hw.consistent
  obtain ⟨s', hs', hks⟩ := ha.statement
  obtain rfl := Option.some.inj (hs.symm.trans hs')
  obtain ⟨l, hl, hkl, _⟩ := ha.left
  obtain ⟨r, hr, hkr⟩ := ha.right
  exact clips_statement hroot hcut ht fun _ gone hp hq hlists =>
    ⟨closed_of_assignment ht hw.shape hp hq named_subset_references hks hs ha.kind hl hr hkl hkr hlists,
      fun _ => closed_of_assignment ht hw.shape hp hq exported_subset_references hks hs ha.kind hl hr hkl hkr
        hlists⟩

/-- The turn of an assignment in place does not fail, and no name changes its meaning. -/
theorem ends_removeCandidate_assigns (hw : WellShaped X w.tree)
    (ha : w.tree.Below w.tree.root n → w.tree.Assigns n name) :
    (Job.removeCandidate name n).Ends w
      (fun done w' => Job.TakesTurn w name n done w' ∧ Trims P X w w') Job.Never := by
  refine (Job.ends_removeCandidate hw.consistent name n).mono (fun done w' hturn => ⟨hturn, ?_⟩) fun _ _ hp => ?_
  · rcases hturn with ⟨_, s, q, t, hs, hroot, _, hcut, rfl⟩ | ⟨_, rfl, _⟩
    · exact .report _ (clips_assignment hw (ha (.step hs hroot)) hs hroot hcut).trims
    · exact .refl
  · obtain ⟨s, hs, hk⟩ := (ha (.of_parent hp)).statement
    obtain rfl := Option.some.inj (hp.symm.trans hs)
    rw [hw.shape.root_program] at hk
    cases hk

end DeadCode
