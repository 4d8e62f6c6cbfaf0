import DeadCode.Proofs.Tree.CommaList
import DeadCode.Proofs.Tree.Edited

/-!
The exact effect of a detachment on the nodes. `Plucked t t' p n before after` gives every node of the new tree: the
child list of `p` lost `n` and the comma beside it, a new first member took over the leading text, and all else is as
it was. Main statements: `plucked_of_detach` (a listed node with a parent can always be detached, with this effect)
and `Plucked.attached_iff` (what is still attached).
-/

namespace DeadCode

/-- A node without the fields that a detachment may change. -/
def Node.bare (d : Node) : Node := { d with children := [], leading := "", parent := none, removed := false }

theorem Node.eq_of_bare {d e : Node} (h : d.bare = e.bare) (hchildren : d.children = e.children)
    (hleading : d.leading = e.leading) (hparent : d.parent = e.parent) (hremoved : d.removed = e.removed) : d = e := by
  cases d
  cases e
  simp_all [bare]

namespace Tree

/-- The comma that leaves with a member: the one behind it, or else the one before it. -/
def commaBeside? (t : Tree) (before after : List NodeId) : Option NodeId :=
  (after.head?.filter (t.kind · = .comma)).or (before.getLast?.filter (t.kind · = .comma))

/-- What stays before and behind a member that leaves: all but the comma behind it, or else but the one before it. -/
def spared (t : Tree) (before after : List NodeId) : List NodeId × List NodeId :=
  if after.head?.any (t.kind · = .comma) then (before, after.tail)
  else if before.getLast?.any (t.kind · = .comma) then (before.dropLast, after)
  else (before, after)

/-- The child list that stays. -/
def remaining (t : Tree) (before after : List NodeId) : List NodeId :=
  (t.spared before after).1 ++ (t.spared before after).2

/-- The first of the members that stay, if it stood behind those that left. -/
def newFirst? (t : Tree) (before after : List NodeId) : Option NodeId :=
  if (t.spared before after).1 = [] then (t.spared before after).2.head? else none

/-- `t'` is `t` after `n` left the children of `p`, with a comma if one stood beside it. -/
structure Plucked (t t' : Tree) (p n : NodeId) (before after : List NodeId) : Prop where
  frame : t'.root = t.root ∧ t'.path = t.path ∧ t'.size = t.size ∧ t'.version = t.version + 1
  stays : ∀ m, m ∉ n :: (t.commaBeside? before after).toList → t'.node m = { t.node m with
    children := if m = p then t.remaining before after else t.children m
    leading := if t.newFirst? before after = some m then (t.node n).leading else (t.node m).leading }
  leaves : ∀ m ∈ n :: (t.commaBeside? before after).toList,
    t'.node m = { t.node m with parent := none, removed := true }

variable {t t' : Tree} {p n m : NodeId} {before after : List NodeId}

/-! ## What leaves, in the terms of the cut -/

theorem spared_next {c : NodeId} (hk : t.kind c = .comma) :
    t.commaBeside? before (c :: after) = some c ∧ t.spared before (c :: after) = (before, after) := by
  simp [commaBeside?, spared, hk]

/-- A member looked at as a comma. -/
theorem no_comma {o : Option NodeId} (h : ∀ c, o = some c → t.kind c ≠ .comma) :
    o.any (t.kind · = .comma) = false ∧ o.filter (t.kind · = .comma) = none := by
  cases o with
  | none => exact ⟨rfl, rfl⟩
  | some c => simpa using h c rfl

theorem spared_previous {c : NodeId} (hk : t.kind c = .comma) (hnext : ∀ d, after.head? = some d → t.kind d ≠ .comma) :
    t.commaBeside? (before ++ [c]) after = some c ∧ t.spared (before ++ [c]) after = (before, after) := by
  obtain ⟨hany, hfilter⟩ := no_comma hnext
  simp [commaBeside?, spared, hk, hany, hfilter]

theorem spared_alone (h : ∀ c, after.head? = some c ∨ before.getLast? = some c → t.kind c ≠ .comma) :
    t.commaBeside? before after = none ∧ t.spared before after = (before, after) := by
  obtain ⟨hnext, hnext'⟩ := no_comma fun c hc => h c (.inl hc)
  obtain ⟨hprev, hprev'⟩ := no_comma fun c hc => h c (.inr hc)
  simp [commaBeside?, spared, hnext, hnext', hprev, hprev']

theorem commaOf?_eq (t : Tree) (n : NodeId) (before after : List NodeId) :
    t.commaOf? (before ++ n :: after) before.length = t.commaBeside? before after := by
  rw [commaOf?]
  rcases t.comma_cases before after with ⟨c, after', rfl, hk⟩ | ⟨c, before', rfl, hk, hnext⟩ | hno
  · rw [commaFor?_next hk, (spared_next hk).1]
    simp
  · rw [commaFor?_previous hk hnext, (spared_previous hk hnext).1]
    simp
  · rw [commaFor?_alone hno, (spared_alone hno).1]
    rfl

theorem without_eq (t : Tree) (n : NodeId) (before after : List NodeId) :
    without (before ++ n :: after) before.length (t.commaFor? (before ++ n :: after) before.length) =
      t.remaining before after := by
  rw [remaining]
  rcases t.comma_cases before after with ⟨c, after', rfl, hk⟩ | ⟨c, before', rfl, hk, hnext⟩ | hno
  · rw [commaFor?_next hk, (spared_next hk).2, without_after]
  · rw [commaFor?_previous hk hnext, (spared_previous hk hnext).2, List.length_append, List.length_singleton,
      without_before]
  · rw [commaFor?_alone hno, (spared_alone hno).2, without, List.eraseIdx_append_of_length_le le_rfl]
    simp

/-- A member became the first exactly if none is left before those that left. -/
theorem first_iff (t : Tree) (n : NodeId) (before after : List NodeId) :
    min before.length ((t.commaFor? (before ++ n :: after) before.length).getD before.length) = 0 ↔
      (t.spared before after).1 = [] := by
  rcases t.comma_cases before after with ⟨c, after', rfl, hk⟩ | ⟨c, before', rfl, hk, hnext⟩ | hno
  · rw [commaFor?_next hk, (spared_next hk).2]
    simp
  · rw [commaFor?_previous hk hnext, (spared_previous hk hnext).2]
    simp
  · rw [commaFor?_alone hno, (spared_alone hno).2]
    simp

theorem newFirst?_eq_some (t : Tree) (before after : List NodeId) : t.newFirst? before after = some m ↔
    (t.spared before after).1 = [] ∧ (t.remaining before after).head? = some m := by
  rw [newFirst?, remaining]
  split
  · rename_i h
    simp [h]
  · rename_i h
    simp [h]

theorem remaining_eq (hnd : (before ++ n :: after).Nodup) : t.remaining before after =
    (before ++ n :: after).filter (· ∉ n :: (t.commaBeside? before after).toList) := by
  have hn : (before ++ n :: after)[before.length]? = some n := by simp
  rw [← without_eq t n, ← commaOf?_eq t n, without_eq_filter hnd hn]

theorem mem_remaining_iff (hnd : (before ++ n :: after).Nodup) : m ∈ t.remaining before after ↔
    m ∈ before ++ n :: after ∧ m ∉ n :: (t.commaBeside? before after).toList := by
  rw [remaining_eq hnd, List.mem_filter, decide_eq_true_eq]

/-- The new first member is one that stays. -/
theorem newFirst?_mem (hnd : (before ++ n :: after).Nodup) (h : t.newFirst? before after = some m) :
    m ∈ before ++ n :: after ∧ m ∉ n :: (t.commaBeside? before after).toList := by
  obtain ⟨_, hhead⟩ := (t.newFirst?_eq_some before after).mp h
  exact (mem_remaining_iff hnd).mp (List.mem_of_head? hhead)

/-- What leaves stood among the siblings. -/
theorem mem_of_leaves (h : m ∈ n :: (t.commaBeside? before after).toList) : m ∈ before ++ n :: after := by
  rcases List.mem_cons.mp h with rfl | h
  · simp
  rcases t.comma_cases before after with ⟨c, after', rfl, hk⟩ | ⟨c, before', rfl, hk, hnext⟩ | hno
  · rw [(spared_next hk).1] at h
    obtain rfl : m = c := by simpa using h
    simp
  · rw [(spared_previous hk hnext).1] at h
    obtain rfl : m = c := by simpa using h
    simp
  · rw [(spared_alone hno).1] at h
    exact absurd h List.not_mem_nil

/-! ## The effect -/

theorem path_cutOut (t : Tree) (q n : NodeId) (siblings : List NodeId) (i : Nat) :
    (t.cutOut q n siblings i).path = t.path := by
  have pass : ∀ (t : Tree) l ns, (t.passLeading l ns).path = t.path := by
    intro t l ns
    cases ns <;> rfl
  have comma : ∀ (t : Tree) c, (t.dropComma c).path = t.path := by
    intro t c
    cases c <;> rfl
  simp only [cutOut, touch, drop, modify]
  split
  · exact (pass _ _ _).trans (comma _ _)
  · exact comma _ _

/-- What leaves is marked. -/
theorem removed_cutOut_gone {siblings : List NodeId} {i : Nat} (hlt : m < t.size)
    (hm : m ∈ n :: (t.commaOf? siblings i).toList) : ((t.cutOut p n siblings i).node m).removed = true := by
  have dropped : ∀ (u : Tree) k, m < u.size → k = m ∨ (u.node m).removed = true →
      ((u.drop k).node m).removed = true := by
    intro u k hu hk
    rw [node_drop]
    by_cases hkm : k = m
    · rw [if_pos ⟨hkm, hu⟩]
    · rw [if_neg fun h => hkm h.1]
      exact hk.resolve_left hkm
  have comma : ∀ (u : Tree) (c : Option NodeId), m < u.size → m ∈ c.toList →
      ((u.dropComma c).node m).removed = true := by
    intro u c hu hc
    cases c with
    | none => exact absurd hc List.not_mem_nil
    | some c => exact dropped u c hu (.inl (by simpa [eq_comm] using hc))
  simp only [cutOut, touch]
  apply dropped
  · split
    · rwa [size_passLeading, size_dropComma, size_modify]
    · rwa [size_dropComma, size_modify]
  · rcases List.mem_cons.mp hm with rfl | hm
    · exact .inl rfl
    · right
      have hlt' :
          m < (t.modify p fun d => { d with children := without siblings i (t.commaFor? siblings i) }).size := by
        rwa [size_modify]
      split
      · rw [proj_passLeading Node.removed fun _ _ => rfl]
        exact comma _ _ hlt' hm
      · exact comma _ _ hlt' hm

/-- A member of an attached list can be detached, and this is all that it does. -/
theorem plucked_of_detach (ht : t.Consistent) (hroot : t.Below t.root p) (hc : t.children p = before ++ n :: after) :
    ∃ t', t.detach n = .ok t' ∧ Plucked t t' p n before after := by
  have hnd : (before ++ n :: after).Nodup := hc ▸ ht.nodup p
  have hp : p < t.size := lt_size_of_child (t := t) (c := n) (by rw [hc]; simp)
  have hchild : ∀ m ∈ before ++ n :: after, t.parent m = some p := fun m hm => (ht.mem_children p m).mp (hc ▸ hm)
  have hfirst := fun m (hm : t.newFirst? before after = some m) => newFirst?_mem hnd hm
  refine ⟨_, detach_eq_cutOut ht hc, ?_⟩
  have hbare := proj_cutOut t p n (before ++ n :: after) before.length Node.bare (fun _ _ => rfl) (fun _ => rfl)
    fun _ _ => rfl
  have hchildren : ∀ m, (t.cutOut p n (before ++ n :: after) before.length).children m =
      if m = p then t.remaining before after else t.children m := by
    intro m
    rw [children_cutOut t p n _ _ hp, without_eq]
  have hparent : ∀ m, (t.cutOut p n (before ++ n :: after) before.length).parent m =
      if m ∈ n :: (t.commaBeside? before after).toList then none else t.parent m := by
    intro m
    rw [parent_cutOut, commaOf?_eq]
  have hleading : ∀ m, ((t.cutOut p n (before ++ n :: after) before.length).node m).leading =
      if t.newFirst? before after = some m then (t.node n).leading else (t.node m).leading := by
    intro m
    rw [leading_cutOut, without_eq]
    simp only [first_iff]
    by_cases hm : t.newFirst? before after = some m
    · obtain ⟨hnone, hhead⟩ := (t.newFirst?_eq_some before after).mp hm
      rw [if_pos ⟨hnone, hhead, lt_size_of_parent (hchild m (hfirst m hm).1)⟩, if_pos hm]
    · rw [if_neg fun h => hm ((t.newFirst?_eq_some before after).mpr ⟨h.1, h.2.1⟩), if_neg hm]
  constructor
  · exact ⟨(frame_cutOut ..).1, path_cutOut .., size_cutOut .., (frame_cutOut ..).2⟩
  · intro m hm
    refine Node.eq_of_bare (hbare m) (hchildren m) (hleading m) ((hparent m).trans (if_neg hm)) ?_
    exact removed_cutOut t p n _ _ (commaOf?_eq t n before after ▸ hm)
  · intro m hm
    have hmem := mem_of_leaves hm
    have hmp : m ≠ p := by
      rintro rfl
      exact not_below_of_parent ht hroot (hchild m hmem) .refl
    refine Node.eq_of_bare (hbare m) ((hchildren m).trans (if_neg hmp)) ((hleading m).trans (if_neg fun h => ?_))
      ((hparent m).trans (if_pos hm)) ?_
    · exact (hfirst m h).2 hm
    · exact removed_cutOut_gone (lt_size_of_parent (hchild m hmem)) (commaOf?_eq t n before after ▸ hm)

/-- What is still attached: all that was and lies below none of what left. -/
theorem Plucked.attached_iff (h : Plucked t t' p n before after) (ht : t.Consistent)
    (hc : t.children p = before ++ n :: after) (hok : t.detach n = .ok t') : t'.Below t'.root m ↔
      t.Below t.root m ∧ ∀ g ∈ n :: (t.commaBeside? before after).toList, ¬ t.Below g m := by
  have hchild : ∀ g ∈ before ++ n :: after, t.parent g = some p := fun g hg => (ht.mem_children p g).mp (hc ▸ hg)
  obtain ⟨gone, hd⟩ := detached_of_parent ht (hchild n (by simp)) hok
  have hgone : ∀ g, g ∈ gone ↔ g ∈ n :: (t.commaBeside? before after).toList := by
    intro g
    constructor
    · intro hg
      by_contra hstay
      have hparent : t'.parent g = t.parent g := by rw [parent, h.stays g hstay, parent]
      rw [hd.parent_gone g hg, hd.parent_of_gone g hg] at hparent
      cases hparent
    · intro hg
      by_contra hstay
      have hp := hchild g (mem_of_leaves hg)
      have hparent : t'.parent g = none := by rw [parent, h.leaves g hg]
      rw [hd.parent_kept g (lt_size_of_parent hp) hstay, hp] at hparent
      cases hparent
  simp only [← hgone]
  rcases lt_or_ge m t.size with hlt | hge
  · exact hd.below_root_iff ht hlt
  · constructor
    · intro hb
      exact absurd (hb.lt_size (hd.consistent ht)) (not_lt.mpr (hd.size_eq ▸ hge))
    · intro hb
      exact absurd (hb.1.lt_size ht) (not_lt.mpr hge)

end Tree
end DeadCode
