import DeadCode.Proofs.Tree.Edited
import DeadCode.Proofs.Tree.Linked

/-!
The edits of the tree as regrafts. A detachment takes a listed node and the comma beside it from under its parent
(`lifts_of_detach`), a replacement puts a new leaf in the place of one (`regrafts_of_replace`). Each needs no more than
that the list in question holds no node twice. `Shorn` says what any number of detachments leaves.
-/

namespace DeadCode.Tree

/-- What a detachment of `n` takes out of a child list: the node and the comma that leaves with it. -/
def lifted (t : Tree) (siblings : List NodeId) (n : NodeId) : List NodeId :=
  n :: (t.commaOf? siblings (siblings.idxOf n)).toList

/-- `t'` is `t` after `n` was detached from the children of `p`. -/
structure Lifts (t t' : Tree) (p n : NodeId) : Prop extends Regrafts t t' p (t.lifted (t.children p) n) [] where
  kind_eq : ∀ m, t'.kind m = t.kind m
  named_eq : ∀ m, (t'.node m).named = (t.node m).named
  children_eq : t'.children p = (t.children p).filter (· ∉ t.lifted (t.children p) n)

/-- `t'` is what is left of `t` without the subtrees of `gone`. -/
structure Shorn (t t' : Tree) (gone : List NodeId) : Prop where
  linked : t'.Linked
  root : t'.root = t.root
  reaches_iff : ∀ m, t'.Reaches t'.root m ↔ t.Reaches t.root m ∧ ∀ g ∈ gone, ¬ t.Reaches g m
  reaches_from : ∀ m, t'.Reaches t'.root m → ∀ r, t'.Reaches r m ↔ t.Reaches r m

variable {t t' t'' : Tree} {p n : NodeId} {gone gone' siblings : List NodeId}

/-! ## Detaching -/

theorem mem_of_mem_lifted (hn : n ∈ siblings) {g : NodeId} (hg : g ∈ t.lifted siblings n) : g ∈ siblings := by
  rcases List.mem_cons.mp hg with rfl | hg
  · exact hn
  · obtain ⟨j, hj, hget⟩ := Option.bind_eq_some_iff.mp (Option.mem_toList.mp hg)
    exact List.mem_of_getElem? hget

theorem eq_or_comma_of_mem_lifted {g : NodeId} (hg : g ∈ t.lifted siblings n) : g = n ∨ t.kind g = .comma := by
  apply (List.mem_cons.mp hg).imp_right
  intro hg
  obtain ⟨j, hj, hget⟩ := Option.bind_eq_some_iff.mp (Option.mem_toList.mp hg)
  obtain ⟨_, c, hc, hk⟩ := commaFor?_eq_some hj
  rw [hc] at hget
  exact Option.some.inj hget ▸ hk

/-- Only the kinds of the siblings matter. -/
theorem lifted_congr (h : ∀ m, t'.kind m = t.kind m) : t'.lifted siblings n = t.lifted siblings n := by
  have hcomma : t'.isCommaAt siblings = t.isCommaAt siblings := by
    funext i
    simp only [isCommaAt, h]
  rw [lifted, lifted, commaOf?, commaOf?, commaFor?, commaFor?, hcomma]

theorem lifts_of_detach (hp : t.parent n = some p) (hnd : (t.children p).Nodup) (h : t.detach n = .ok t') :
    Lifts t t' p n := by
  obtain ⟨q, i, hq, hi, rfl⟩ := parent_of_detach h
  obtain rfl := Option.some.inj (hp.symm.trans hq)
  obtain ⟨hlt, hget, _⟩ := List.idxOf?_eq_some_iff.mp hi
  have hn : n ∈ t.children p := hget ▸ List.getElem_mem hlt
  have hgone : t.lifted (t.children p) n = n :: (t.commaOf? (t.children p) i).toList := by
    rw [lifted, ← hget, hnd.idxOf_getElem i hlt]
  have hcut : (t.cutOut p n (t.children p) i).children p =
      (t.children p).filter (· ∉ t.lifted (t.children p) n) := by
    rw [children_cutOut t p n _ i (lt_size_of_child hn), if_pos rfl,
      without_eq_filter hnd (getElem?_of_idxOf? hi), hgone]
  constructor
  · constructor
    · exact (frame_cutOut t p n (t.children p) i).1
    · exact (size_cutOut t p n (t.children p) i).ge
    · exact lt_size_of_child hn
    · intro g hg
      exact mem_of_mem_lifted hn hg
    · nofun
    · intro m
      rw [hcut, List.mem_filter, decide_eq_true_eq]
      simp
    · exact hcut ▸ hnd.filter _
    · intro q hq
      rw [children_cutOut t p n _ i (lt_size_of_child hn), if_neg hq]
    · intro m
      rw [hgone, parent_cutOut]
      simp
    · nofun
    · intro m hm _
      exact removed_cutOut t p n (t.children p) i (hgone ▸ hm)
  · exact proj_cutOut t p n (t.children p) i Node.kind (fun _ _ => rfl) (fun _ => rfl) fun _ _ => rfl
  · exact proj_cutOut t p n (t.children p) i Node.named (fun _ _ => rfl) (fun _ => rfl) fun _ _ => rfl
  · exact hcut

/-! ## Replacing -/

/-- A replacement by a node that was just added succeeds only where the old node is listed. -/
theorem exchange_of_replace {d : Node} (hd : d.children = []) (hp : t.parent n = some p)
    (h : (t.add d).2.replace n t.size = .ok t') :
    ∃ i, (t.children p)[i]? = some n ∧ t' = (t.add d).2.exchange p n t.size i := by
  have hp' : (t.add d).2.parent n = some p := by
    rw [parent, node_add, if_neg (ne_of_lt (lt_size_of_parent hp))]
    exact hp
  cases hi : (t.children p).idxOf? n with
  | none => simp [replace, hp', children_add hd, hi] at h
  | some i =>
    rw [replace_eq_exchange hp' (by rw [children_add hd, hi])] at h
    exact ⟨i, getElem?_of_idxOf? hi, (Except.ok.inj h).symm⟩

/-- The members once a fresh one stands in the place of `n`. -/
theorem mem_exchanged_iff {l : List NodeId} {k m : NodeId} (hl : ∀ c ∈ l, c < k) (hn : n ∈ l) :
    (m ∈ l.map fun c => if c = n then k else c) ↔ m ∈ l ∧ m ≠ n ∨ m = k := by
  rw [List.mem_map]
  constructor
  · rintro ⟨c, hc, rfl⟩
    split_ifs with hcn
    · exact .inr rfl
    · exact .inl ⟨hc, hcn⟩
  · rintro (⟨hm, hne⟩ | rfl)
    · exact ⟨m, hm, if_neg hne⟩
    · exact ⟨n, hn, if_pos rfl⟩

theorem regrafts_of_replace {d : Node} (hd : d.children = []) (hstands : d.removed = false)
    (hp : t.parent n = some p) (hnd : (t.children p).Nodup) (hstored : ∀ c ∈ t.children p, c < t.size)
    (h : (t.add d).2.replace n t.size = .ok t') : Regrafts t t' p [n] [t.size] := by
  obtain ⟨i, hi, rfl⟩ := exchange_of_replace hd hp h
  have hn : n < t.size := lt_size_of_parent hp
  have hmem : n ∈ t.children p := List.mem_of_getElem? hi
  have hold : ∀ m, m ≠ t.size → (t.add d).2.node m = t.node m := by
    intro m hm
    rw [node_add, if_neg hm]
  have hsize : (t.add d).2.size = t.size + 1 := size_add t d
  have hnew : t.size < (t.add d).2.size := hsize ▸ Nat.lt_succ_self _
  have hplt : p < (t.add d).2.size := (lt_size_of_child hmem).trans hnew
  have hcut : ((t.add d).2.exchange p n t.size i).children p =
      (t.children p).map fun c => if c = n then t.size else c := by
    rw [children_exchange _ p n t.size i hplt, if_pos rfl, children_add hd, set_eq_map hnd hi]
  constructor
  · rfl
  · rw [size_exchange, hsize]
    exact Nat.le_succ _
  · exact lt_size_of_child hmem
  · intro g hg
    rw [List.mem_singleton.mp hg]
    exact hmem
  · intro m hm
    rw [List.mem_singleton.mp hm, size_exchange]
    exact ⟨le_rfl, hnew⟩
  · intro m
    rw [hcut, mem_exchanged_iff hstored hmem, List.mem_singleton, List.mem_singleton]
  · rw [hcut]
    exact nodup_fresh hstored hnd n
  · intro q hq
    rw [children_exchange _ p n t.size i hplt, if_neg hq, children_add hd]
  · intro m
    rw [parent_exchange _ p n t.size i hnew]
    simp only [List.mem_singleton]
    split_ifs with hmn hm
    · rfl
    · rfl
    · rw [parent, hold m hm, parent]
  · intro m hm
    rw [List.mem_singleton.mp hm, removed_exchange _ p n t.size i (ne_of_gt hn), node_add, if_pos rfl, hstands]
  · intro m hm hm'
    rw [removed_exchange _ p n t.size i (fun h => hm (List.mem_singleton.mpr h)),
      hold m fun h => hm' (List.mem_singleton.mpr h)]

/-! ## Several detachments -/

namespace Shorn

theorem trans (h : Shorn t t' gone) (h' : Shorn t' t'' gone') : Shorn t t'' (gone ++ gone') where
  linked := h'.linked
  root := h'.root.trans h.root
  reaches_iff m := by
    rw [h'.reaches_iff, h.reaches_iff, and_assoc, List.forall_mem_append]
    apply and_congr_right
    intro hm
    apply and_congr_right
    intro hgone
    apply forall₂_congr
    intro g _
    rw [h.reaches_from m ((h.reaches_iff m).mpr ⟨hm, hgone⟩) g]
  reaches_from m hm r := by
    have hm' := ((h'.reaches_iff m).mp hm).1
    rw [h'.reaches_from m hm r, h.reaches_from m hm' r]

end Shorn

theorem Regrafts.shorn (h : Regrafts t t' p gone []) (ht : t.Linked) (hp : t.Reaches t.root p) : Shorn t t' gone where
  linked := h.linked ht hp
  root := h.root
  reaches_iff m := by
    rw [h.reaches_iff ht hp]
    simp
  reaches_from m hm r := by
    constructor
    · intro hr
      exact h.reaches_old hr List.not_mem_nil
    · intro hr
      exact h.reaches_kept hr (h.not_reaches_gone ht hp hm List.not_mem_nil)

end DeadCode.Tree
