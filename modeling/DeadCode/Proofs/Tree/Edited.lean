import DeadCode.Proofs.Tree.Remains

/-!
Trees reached by removals. `Edited t u` says that `u` came from `t` by any number of detachments and removals of
statements. A member that is not the first of its list keeps the text before it through all of them
(`Edited.leading_kept`); only a new first member takes over the text of the old one.
-/

namespace DeadCode.Tree

inductive Edited (t : Tree) : Tree → Prop
  | refl : Edited t t
  | detach {u v : Tree} {n : NodeId} : Edited t u → u.detach n = .ok v → Edited t v
  | removeStatement {u v : Tree} {n : NodeId} : Edited t u → u.removeStatement n = .ok (some v) → Edited t v

variable {t u : Tree} {q n m : NodeId}

/-! ## What succeeds -/

theorem parent_of_detach (h : t.detach n = .ok u) :
    ∃ q i, t.parent n = some q ∧ (t.children q).idxOf? n = some i ∧ u = t.cutOut q n (t.children q) i := by
  unfold detach at h
  split at h
  · cases h
  · cases h
  · rename_i q hp _
    split at h
    · cases h
    · rename_i i hi
      exact ⟨q, i, hp, hi, (Except.ok.inj h).symm⟩

theorem ok_of_map_some {e : Except SurgeryError Tree} (h : e.map some = .ok (some u)) : e = .ok u := by
  cases e with
  | error e => cases h
  | ok v => exact congrArg Except.ok (Option.some.inj (Except.ok.inj h))

/-- A statement that was removed was detached or replaced. -/
theorem parent_of_removeStatement (h : t.removeStatement n = .ok (some u)) : t.detach n = .ok u ∨
    ∃ q, t.parent n = some q ∧ (t.addEmptyStatement n).2.replace n t.size = .ok u := by
  unfold removeStatement at h
  split at h
  · cases h
  · rename_i q hp
    split at h
    · exact .inl (ok_of_map_some h)
    · split at h
      · exact .inr ⟨q, hp, ok_of_map_some h⟩
      · cases h

theorem detached_of_detach (ht : t.Consistent) (h : t.detach n = .ok u) : ∃ q gone, Detached t u q n gone := by
  obtain ⟨q, _, hp, _⟩ := parent_of_detach h
  exact ⟨q, detached_of_parent ht hp h⟩

theorem replaced_of_replace (ht : t.Consistent) (hp : t.parent n = some q)
    (h : (t.addEmptyStatement n).2.replace n t.size = .ok u) : Replaced t u q n := by
  obtain ⟨v, hv, hr⟩ := replace_eq_ok ht hp
  obtain rfl := Except.ok.inj (h.symm.trans hv)
  exact hr

/-! ## The text before a node -/

theorem node_passLeading (t : Tree) (l : String) (ns : List NodeId) (m : NodeId) : (t.passLeading l ns).node m =
    if ns.head? = some m ∧ m < t.size then { t.node m with leading := l } else t.node m := by
  cases ns with
  | nil => rfl
  | cons c ns =>
    rw [passLeading, node_modify]
    by_cases h : c = m ∧ m < t.size
    · rw [if_pos h, if_pos ⟨congrArg some h.1, h.2⟩]
    · rw [if_neg h, if_neg fun h' => h ⟨Option.some.inj h'.1, h'.2⟩]

/-- Of all the leading texts a cut changes at most that of the first member that is left. -/
theorem leading_cutOut (t : Tree) (q n : NodeId) (siblings : List NodeId) (i : Nat) (m : NodeId) :
    ((t.cutOut q n siblings i).node m).leading =
      if min i ((t.commaFor? siblings i).getD i) = 0 ∧
          (without siblings i (t.commaFor? siblings i)).head? = some m ∧ m < t.size then (t.node n).leading
      else (t.node m).leading := by
  have hdrop : ∀ d : Node, Node.leading { d with parent := none, removed := true } = d.leading := fun _ => rfl
  have hchildren : ∀ d : Node, Node.leading { d with
      children := without siblings i (t.commaFor? siblings i) } = d.leading := fun _ => rfl
  simp only [cutOut, touch]
  refine (proj_modify Node.leading hdrop _ n m).trans ?_
  by_cases hfirst : min i ((t.commaFor? siblings i).getD i) = 0
  · rw [if_pos hfirst, node_passLeading, size_dropComma, size_modify]
    simp only [hfirst, true_and]
    split
    · rfl
    · rw [proj_dropComma Node.leading hdrop, proj_modify Node.leading hchildren]
  · rw [if_neg hfirst, if_neg fun h => hfirst h.1, proj_dropComma Node.leading hdrop,
      proj_modify Node.leading hchildren]

/-- A member that is not the first of its list. -/
def Later (t : Tree) (p m : NodeId) : Prop := m ∈ (t.children p).tail

theorem Later.mem {p : NodeId} (h : t.Later p m) : m ∈ t.children p := List.mem_of_mem_tail h

theorem leading_detach (ht : t.Consistent) (h : t.detach n = .ok u) {p : NodeId} (hm : u.Later p m) :
    t.Later p m ∧ (u.node m).leading = (t.node m).leading := by
  obtain ⟨q, i, hp, hi, rfl⟩ := parent_of_detach h
  have hmem : n ∈ t.children q := (ht.mem_children q n).mpr hp
  have hrest := without_eq_filter (t := t) (ht.nodup q) (getElem?_of_idxOf? hi)
  have hsub : (without (t.children q) i (t.commaFor? (t.children q) i)).Sublist (t.children q) := by
    rw [hrest]
    exact List.filter_sublist
  rw [Later, children_cutOut _ _ _ _ _ (lt_size_of_child hmem)] at hm
  by_cases hpq : p = q
  · subst hpq
    rw [if_pos rfl] at hm
    refine ⟨hsub.tail.subset hm, (leading_cutOut ..).trans (if_neg fun hhead => ?_)⟩
    -- a list without repetition holds its first member only once
    obtain ⟨rest, hr⟩ := List.head?_eq_some_iff.mp hhead.2.1
    have hnd := hsub.nodup (ht.nodup p)
    rw [hr] at hnd hm
    exact (List.nodup_cons.mp hnd).1 hm
  · rw [if_neg hpq] at hm
    refine ⟨hm, (leading_cutOut ..).trans (if_neg fun hhead => ?_)⟩
    have hq := (ht.mem_children q m).mp (hsub.subset (List.mem_of_head? hhead.2.1))
    have hp' := (ht.mem_children p m).mp (List.mem_of_mem_tail hm)
    exact hpq (Option.some.inj (hp'.symm.trans hq))

theorem leading_replace (ht : t.Consistent) (hp : t.parent n = some q)
    (h : (t.addEmptyStatement n).2.replace n t.size = .ok u) (hlt : m < t.size) {p : NodeId}
    (hm : u.Later p m) : t.Later p m ∧ (u.node m).leading = (t.node m).leading := by
  have hr := replaced_of_replace ht hp h
  refine ⟨?_, ?_⟩
  · by_cases hpq : p = q
    · subst hpq
      rw [Later, hr.children_cut, ← List.map_tail] at hm
      obtain ⟨c, hc, hcm⟩ := List.mem_map.mp hm
      split_ifs at hcm with hcn
      · exact absurd hcm (Nat.ne_of_gt hlt)
      · exact hcm ▸ hc
    · rwa [Later, hr.children_other p hpq] at hm
  · obtain ⟨i, hi⟩ := idxOf?_child ht hp
    rw [replace_addEmptyStatement hp hi] at h
    obtain rfl := Except.ok.inj h
    rw [proj_exchange _ _ _ _ _ Node.leading (fun _ _ _ => rfl) (fun _ _ => rfl) (fun _ => rfl),
      node_addEmptyStatement t n hlt]

namespace Edited

theorem trans {v : Tree} (h : Edited t u) (h' : Edited u v) : Edited t v := by
  induction h' with
  | refl => exact h
  | detach _ hd ih => exact .detach ih hd
  | removeStatement _ hr ih => exact .removeStatement ih hr

theorem remains (h : Edited t u) (ht : t.Consistent) : Remains t u := by
  induction h with
  | refl => exact .refl ht
  | detach _ hd ih =>
    obtain ⟨_, _, hcut⟩ := detached_of_detach ih.consistent hd
    exact ih.trans (hcut.toCut.remains ih.consistent)
  | removeStatement _ hr ih =>
    rcases parent_of_removeStatement hr with hd | ⟨_, hp, hr⟩
    · obtain ⟨_, _, hcut⟩ := detached_of_detach ih.consistent hd
      exact ih.trans (hcut.toCut.remains ih.consistent)
    · exact ih.trans ((replaced_of_replace ih.consistent hp hr).toCut.remains ih.consistent)

/-- Ways down do not get longer. -/
theorem grounded (h : Edited t u) (ht : t.Consistent) {k : Nat} (hg : t.Grounded k m) : u.Grounded k m := by
  induction h with
  | refl => exact hg
  | detach hpre hd ih =>
    have hu := (hpre.remains ht).consistent
    obtain ⟨_, _, hcut⟩ := detached_of_detach hu hd
    exact hcut.toCut.grounded hu ih
  | removeStatement hpre hr ih =>
    have hu := (hpre.remains ht).consistent
    rcases parent_of_removeStatement hr with hd | ⟨_, hp, hr⟩
    · obtain ⟨_, _, hcut⟩ := detached_of_detach hu hd
      exact hcut.toCut.grounded hu ih
    · exact (replaced_of_replace hu hp hr).toCut.grounded hu ih

/-- A member that is not the first of its list never was, and has the text before it that it had. -/
theorem leading_kept (h : Edited t u) (ht : t.Consistent) (hlt : m < t.size) {p : NodeId} (hm : u.Later p m) :
    t.Later p m ∧ (u.node m).leading = (t.node m).leading := by
  induction h with
  | refl => exact ⟨hm, rfl⟩
  | @detach u v n hpre hd ih =>
    obtain ⟨hm, hlead⟩ := leading_detach (hpre.remains ht).consistent hd hm
    exact ⟨(ih hm).1, hlead.trans (ih hm).2⟩
  | @removeStatement u v n hpre hr ih =>
    have hu := hpre.remains ht
    have hstep : u.Later p m ∧ (v.node m).leading = (u.node m).leading := by
      rcases parent_of_removeStatement hr with hd | ⟨_, hp, hr⟩
      · exact leading_detach hu.consistent hd hm
      · exact leading_replace hu.consistent hp hr (lt_of_lt_of_le hlt hu.size_le) hm
    exact ⟨(ih hstep.1).1, hstep.2.trans (ih hstep.1).2⟩

end Edited
end DeadCode.Tree
