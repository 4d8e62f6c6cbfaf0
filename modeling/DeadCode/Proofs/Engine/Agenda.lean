import DeadCode.Proofs.Engine.Upkeep
import DeadCode.Proofs.Tree.Edited

/-!
A walk as a loop over a stack. Each round takes the next node off the stack; a visit puts the children that the node has
then on top. So the stack holds nodes of earlier trees, some of which have left since. If visits do no more to the tree
than removals, the loop ends, and in what the recursion ends in (`rounds_eq_traverse`), and what it entered and what
waits are at every moment, as far as it stays attached, the walk of the tree that it began with (`ends_rounds`).
-/

namespace DeadCode

open DeadCode.Tree Workspace

/-- The loop of a walk between two rounds: the nodes that wait, the next one first, the state of the visits, and a log of
the nodes taken up, of those entered, and of those shown, each with the tree of that moment. -/
structure Agenda (σ : Type) where
  stack : List NodeId
  state : σ
  taken : List NodeId := []
  entered : List NodeId := []
  shown : List (NodeId × Tree) := []

namespace Agenda

variable {σ : Type} (a : Agenda σ) (n : NodeId)

/-- `n` is taken off the stack. -/
def take (rest : List NodeId) : Agenda σ := { a with stack := rest, taken := a.taken ++ [n] }

/-- `n` was entered. -/
def note (s : σ) : Agenda σ := { a with state := s, entered := a.entered ++ [n] }

/-- `n` was shown in the tree `t`, and its children wait. -/
def visit (t : Tree) (children : List NodeId) (s : σ) : Agenda σ :=
  { a with stack := children ++ a.stack, state := s, shown := a.shown ++ [(n, t)] }

end Agenda

namespace Job

variable {σ : Type} (enter collect : NodeId → σ → Job σ)

/-- One round. A node that has left is passed over, and so is one that leaves as it is entered. -/
def round (a : Agenda σ) : Job (Agenda σ) :=
  match a.stack with
  | [] => return a
  | n :: rest => do
    let a := a.take n rest
    if !(← get).tree.contains n then return a
    let s ← enter n a.state
    let a := a.note n s
    let t := (← get).tree
    if !t.contains n then return a
    let s ← collect n s
    return a.visit n t ((← get).tree.children n) s

def rounds : Nat → Agenda σ → Job (Agenda σ)
  | 0, a => return a
  | k + 1, a => do rounds k (← round enter collect a)

end Job

/-! ## The loop and the recursion -/

namespace Job

variable {σ : Type} {enter collect : NodeId → σ → Job σ} {a : Agenda σ} {s : σ} {w w' : Workspace} {n : NodeId}
  {rest : List NodeId}

theorem rounds_one (a : Agenda σ) : rounds enter collect 1 a = round enter collect a := bind_pure _

theorem rounds_add (j k : Nat) (a : Agenda σ) :
    rounds enter collect (j + k) a = rounds enter collect j a >>= rounds enter collect k := by
  induction j generalizing a with
  | zero => rw [Nat.zero_add, rounds, pure_bind]
  | succ j ih => simp only [Nat.succ_add, rounds, bind_assoc, ih]

theorem rounds_idle (k : Nat) (h : a.stack = []) : rounds enter collect k a w = .ok a w := by
  induction k with
  | zero => rfl
  | succ k ih =>
    have hr : round enter collect a w = .ok a w := by
      rw [round, h]
      rfl
    rw [rounds, bind_of_ok hr, ih]

theorem round_skip (h : a.stack = n :: rest) (hn : w.tree.contains n = false) :
    round enter collect a w = .ok (a.take n rest) w := by
  rw [round, h]
  simp only [get_bind, hn]
  rfl

theorem round_fail (h : a.stack = n :: rest) (hn : w.tree.contains n = true) {e : SurgeryError}
    (he : enter n a.state w = .error e w') : round enter collect a w = .error e w' := by
  rw [round, h]
  simp only [get_bind, hn, Bool.not_true, Bool.false_eq_true, if_false]
  exact bind_of_error he

theorem round_gone (h : a.stack = n :: rest) (hn : w.tree.contains n = true) (he : enter n a.state w = .ok s w')
    (hgone : w'.tree.contains n = false) : round enter collect a w = .ok ((a.take n rest).note n s) w' := by
  have he' : enter n (a.take n rest).state w = .ok s w' := he
  rw [round, h]
  simp only [get_bind, hn, Bool.not_true, Bool.false_eq_true, if_false, bind_of_ok he', hgone]
  rfl

theorem round_visit (h : a.stack = n :: rest) (hn : w.tree.contains n = true) (he : enter n a.state w = .ok s w')
    (hin : w'.tree.contains n = true) : round enter collect a w = (collect n s >>= fun s' => do
      return ((a.take n rest).note n s).visit n w'.tree ((← get).tree.children n) s') w' := by
  have he' : enter n (a.take n rest).state w = .ok s w' := he
  rw [round, h]
  simp only [get_bind, hn, hin, Bool.not_true, Bool.false_eq_true, if_false, bind_of_ok he']

/-- From the agenda `a` on the loop comes to what the job ends in, with the stack `rest`. -/
def Mimics (enter collect : NodeId → σ → Job σ) (a : Agenda σ) (rest : List NodeId) (w : Workspace) (j : Job σ) :
    Prop :=
  j.Ends w (fun s w' => Edited w.tree w'.tree ∧
      ∃ k a', rounds enter collect k a w = .ok a' w' ∧ a'.stack = rest ∧ a'.state = s)
    fun e w' => ∃ k, rounds enter collect k a w = .error e w'

/-- What the loop comes to after some rounds more, it comes to from the beginning. -/
theorem Mimics.after {j : Job σ} {k : Nat} {b : Agenda σ} {w₁ : Workspace}
    (hk : rounds enter collect k a w = .ok b w₁) (hed : Edited w.tree w₁.tree)
    (h : Mimics enter collect b rest w₁ j) :
    j.Ends w₁ (fun s w' => Edited w.tree w'.tree ∧
        ∃ k a', rounds enter collect k a w = .ok a' w' ∧ a'.stack = rest ∧ a'.state = s)
      fun e w' => ∃ k, rounds enter collect k a w = .error e w' := by
  refine h.mono (fun s₂ w₂ h₂ => ?_) fun e w₂ h₂ => ?_
  · obtain ⟨hed', k', b', hk', hend⟩ := h₂
    refine ⟨hed.trans hed', k + k', b', ?_, hend⟩
    rw [rounds_add, bind_of_ok hk, hk']
  · obtain ⟨k', hk'⟩ := h₂
    refine ⟨k + k', ?_⟩
    rw [rounds_add, bind_of_ok hk, hk']

/-- The nodes on top of the stack, one after the other. -/
theorem mimics_foldlM {fuel : Nat} {f : σ → NodeId → Job σ}
    (hf : ∀ {rest : List NodeId} {n : NodeId} {a : Agenda σ} {w : Workspace}, w.tree.Consistent →
      w.tree.Grounded fuel n → a.stack = n :: rest → Mimics enter collect a rest w (f a.state n)) (l : List NodeId) :
    ∀ {a : Agenda σ} {w : Workspace}, w.tree.Consistent → (∀ c ∈ l, w.tree.Grounded fuel c) →
      a.stack = l ++ rest → Mimics enter collect a rest w (l.foldlM f a.state) := by
  induction l with
  | nil => exact fun _ _ h => ⟨.refl, 0, _, rfl, h, rfl⟩
  | cons c l ih =>
    intro a w ht hg h
    rw [Mimics, List.foldlM_cons, ends_bind]
    refine (hf ht (hg c List.mem_cons_self) h).imp fun s₁ w₁ h₁ => ?_
    obtain ⟨hed, k, b, hk, hb, rfl⟩ := h₁
    have hgrounded : ∀ d ∈ l, w₁.tree.Grounded fuel d := fun d hd => hed.grounded ht (hg d (List.mem_cons_of_mem c hd))
    exact (ih (hed.remains ht).consistent hgrounded hb).after hk hed

section

variable (henter : ∀ t n s, Preserves (fun w => Edited t w.tree) (enter n s))
  (hcollect : ∀ t n s, Preserves (fun w => w.tree = t) (collect n s))

include henter hcollect

theorem mimics_traverse (fuel : Nat) :
    ∀ {rest : List NodeId} {n : NodeId} {a : Agenda σ} {w : Workspace}, w.tree.Consistent → w.tree.Grounded fuel n →
      a.stack = n :: rest → Mimics enter collect a rest w (traverse enter collect fuel a.state n) := by
  induction fuel with
  | zero => exact fun _ hg => hg.elim
  | succ fuel ih =>
    intro rest n a w ht hg h
    have hone : ∀ {r}, round enter collect a w = r → rounds enter collect 1 a w = r := by
      intro r hr
      rw [rounds_one, hr]
    rw [Mimics, traverse, ends_bind, ends_get]
    refine ends_ite (fun hout => ?_) fun hin => ?_
    · exact ⟨.refl, 1, _, hone (round_skip h (by simpa using hout)), rfl, rfl⟩
    rw [ends_bind]
    refine ((ends_same (enter n a.state)).and (henter w.tree n a.state w .refl)).mono (fun s₁ w₁ h₁ => ?_)
      fun e w' h' => ⟨1, hone (round_fail h (by simpa using hin) h'.1)⟩
    obtain ⟨he, hed⟩ := h₁
    rw [ends_bind, ends_get]
    refine ends_ite (fun hout => ?_) fun hin₁ => ?_
    · exact ⟨hed, 1, _, hone (round_gone h (by simpa using hin) he (by simpa using hout)), rfl, rfl⟩
    have hvisit : round enter collect a w = _ := round_visit h (by simpa using hin) he (by simpa using hin₁)
    rw [ends_bind]
    refine ((ends_same (collect n s₁)).and (hcollect w₁.tree n s₁ w₁ rfl)).mono (fun s₂ w₂ h₂ => ?_)
      fun e w' h' => ⟨1, hone (hvisit.trans (bind_of_error h'.1))⟩
    obtain ⟨hc, htree⟩ := h₂
    have hed₂ : Edited w.tree w₂.tree := htree ▸ hed
    rw [bind_of_ok hc, get_bind] at hvisit
    rw [ends_bind, ends_get]
    -- the children wait on top of what waited before
    have hnext := @mimics_foldlM _ _ _ rest fuel _ ih (w₂.tree.children n)
      (((a.take n rest).note n s₁).visit n w₁.tree (w₂.tree.children n) s₂) w₂
      (hed₂.remains ht).consistent (hed₂.grounded ht hg) rfl
    exact hnext.after (hone hvisit) hed₂

/-- After some number of rounds the loop has come to its end, and it ends as the recursion does. -/
theorem rounds_eq_traverse {fuel : Nat} (ht : w.tree.Consistent) (hg : w.tree.Grounded fuel n) (h : a.stack = [n]) :
    ∃ k, ∀ j, k ≤ j → (Agenda.state <$> rounds enter collect j a) w = traverse enter collect fuel a.state n w ∧
      ∀ b w', rounds enter collect j a w = .ok b w' → b.stack = [] := by
  have hmimics := mimics_traverse henter hcollect fuel ht hg h
  unfold Mimics Ends at hmimics
  cases htraverse : traverse enter collect fuel a.state n w with
  | ok s w' =>
    rw [htraverse] at hmimics
    obtain ⟨_, k, b, hk, hb, rfl⟩ := hmimics
    refine ⟨k, fun j hj => ?_⟩
    obtain ⟨i, rfl⟩ := Nat.exists_eq_add_of_le hj
    have hi : rounds enter collect (k + i) a w = .ok b w' := by
      rw [rounds_add, bind_of_ok hk, rounds_idle i hb]
    refine ⟨map_eq_ok.mpr ⟨b, hi, rfl⟩, fun c u hc => ?_⟩
    obtain ⟨rfl, rfl⟩ := EStateM.Result.ok.inj (hi.symm.trans hc)
    exact hb
  | error e w' =>
    rw [htraverse] at hmimics
    obtain ⟨k, hk⟩ := hmimics
    refine ⟨k, fun j hj => ?_⟩
    obtain ⟨i, rfl⟩ := Nat.exists_eq_add_of_le hj
    have hi : rounds enter collect (k + i) a w = .error e w' := by
      rw [rounds_add, bind_of_error hk]
    constructor
    · rw [← bind_pure_comp, bind_of_error hi]
    · intro c u hc
      rw [hi] at hc
      cases hc

end

end Job

/-! ## The log -/

/-- What a walk sees of a subtree: the node, and then what it sees of the children that the node has at its visit. -/
theorem Job.filter_walkFrom {t₀ t u : Tree} {n : NodeId} (ht₀ : t₀.Consistent) (hr : Remains t₀ t)
    (hn : t.Below t.root n) (hr' : Remains t u) :
    (n :: (t.children n).flatMap t₀.walkFrom).filter (t₀.kept u) = (t₀.walkFrom n).filter (t₀.kept u) := by
  rcases lt_or_ge n t₀.size with hlt | hge
  · have hchildren : ((t.children n).flatMap t₀.walkFrom).filter (t₀.kept u) =
        ((t₀.children n).flatMap t₀.walkFrom).filter (t₀.kept u) := filter_children ht₀ hr hr' n t₀.size
    rw [walkFrom_eq ht₀ (hr.attached n hlt hn), List.filter_cons, List.filter_cons, hchildren]
  · -- an empty statement that came in later
    have hk : t₀.kept u n = false := by simp [kept, not_lt.mpr hge]
    rw [hr.fresh_leaf n hge, walkFrom, (hr.trans hr').descend_kept ht₀ hk]
    simp [hk]

namespace Agenda

/-- A loop that began with the tree `t₀` has come to the tree `t`. No node was taken up twice or will be, and what was
entered and what waits make up, as far as it stays attached, the walk of `t₀`. -/
structure Faithful (t₀ t : Tree) (stack taken entered : List NodeId) (shown : List (NodeId × Tree)) : Prop where
  remains : Remains t₀ t
  once : (taken ++ stack).Nodup
  known : ∀ m ∈ taken ++ stack, m < t.size
  lister : ∀ m ∈ taken ++ stack, t.Below t.root m → m = t.root ∨ ∃ p ∈ entered, t.parent m = some p
  entered_sub : entered.Sublist taken
  shown_sub : (shown.map Prod.fst).Sublist entered
  attached : ∀ x ∈ shown, x.2.contains x.1 = true
  order : ∀ u, Remains t u →
    (entered ++ stack.flatMap t₀.walkFrom).filter (t₀.kept u) = t₀.walk.filter (t₀.kept u)
  shown_eq : ∀ u, Remains t u → (shown.map Prod.fst).filter (t₀.kept u) = entered.filter (t₀.kept u)

namespace Faithful

variable {t₀ t u : Tree} {n : NodeId} {stack rest taken entered l : List NodeId} {shown : List (NodeId × Tree)}

theorem start (ht : t.Consistent) : Faithful t t [t.root] [] [] [] where
  remains := .refl ht
  once := by simp
  known := by simpa using ht.root_lt
  lister := by simp
  entered_sub := .refl _
  shown_sub := .refl _
  attached := by simp
  order u _ := by simp [walk]
  shown_eq _ _ := rfl

/-- Edits between two rounds do no harm. -/
theorem edited (h : Faithful t₀ t stack taken entered shown) (hr : Remains t u) :
    Faithful t₀ u stack taken entered shown where
  remains := h.remains.trans hr
  once := h.once
  known m hm := lt_of_lt_of_le (h.known m hm) hr.size_le
  lister m hm hb := by
    rw [hr.root, hr.parent_eq m (h.known m hm) hb]
    exact h.lister m hm (hr.attached m (h.known m hm) hb)
  entered_sub := h.entered_sub
  shown_sub := h.shown_sub
  attached := h.attached
  order v hv := h.order v (hr.trans hv)
  shown_eq v hv := h.shown_eq v (hr.trans hv)

variable (h : Faithful t₀ t (n :: rest) taken entered shown) (ht₀ : t₀.Consistent)

include h

theorem known_next : n < t.size := h.known n (by simp)

include ht₀

/-- A node that has left is passed over, whether it was entered before or not. -/
theorem left (hn : ¬ t.Below t.root n) (hl : l.Sublist [n]) :
    Faithful t₀ t rest (taken ++ [n]) (entered ++ l) shown := by
  have hmoved : (taken ++ [n]) ++ rest = taken ++ n :: rest := by simp
  have hk : ∀ u, Remains t u → t₀.kept u n = false := by
    intro u hu
    by_contra hk
    obtain ⟨_, hroot⟩ := (h.remains.trans hu).kept_iff.mp (by simpa using hk)
    exact hn (hu.attached n h.known_next hroot)
  have hnone : ∀ u, Remains t u → l.filter (t₀.kept u) = [] := by
    intro u hu
    apply List.filter_eq_nil_iff.mpr
    intro m hm
    obtain rfl := List.mem_singleton.mp (hl.subset hm)
    simp [hk u hu]
  constructor
  · exact h.remains
  · exact hmoved ▸ h.once
  · exact hmoved ▸ h.known
  · intro m hm hb
    apply (h.lister m (hmoved ▸ hm) hb).imp_right
    rintro ⟨p, hp, hmp⟩
    exact ⟨p, List.mem_append_left l hp, hmp⟩
  · exact h.entered_sub.append hl
  · exact h.shown_sub.trans (List.sublist_append_left _ l)
  · exact h.attached
  · intro u hu
    have hbelow : (t₀.walkFrom n).filter (t₀.kept u) = [] :=
      (h.remains.trans hu).descend_kept ht₀ (hk u hu) t₀.size
    have horder := h.order u hu
    rw [List.flatMap_cons, List.filter_append, List.filter_append, hbelow] at horder
    rw [List.filter_append, List.filter_append, hnone u hu, List.append_nil]
    exact horder
  · intro u hu
    rw [h.shown_eq u hu, List.filter_append, hnone u hu, List.append_nil]

omit ht₀ in
/-- A child that was met before was put there by a visit of its parent, and that has not been. -/
theorem children_new (hn : t.Below t.root n) : ∀ c ∈ t.children n, c ∉ taken ++ n :: rest := by
  have ht := h.remains.consistent
  intro c hc hmem
  have hp := (ht.mem_children n c).mp hc
  rcases h.lister c hmem (.step hp hn) with rfl | ⟨p, hentered, hcp⟩
  · rw [ht.root_parent] at hp
    cases hp
  · obtain rfl := Option.some.inj (hcp.symm.trans hp)
    exact (List.nodup_append.mp h.once).2.2 p (h.entered_sub.subset hentered) p List.mem_cons_self rfl

/-- A node that is shown puts its children on the stack. -/
theorem visited (hn : t.Below t.root n) :
    Faithful t₀ t (t.children n ++ rest) (taken ++ [n]) (entered ++ [n]) (shown ++ [(n, t)]) := by
  have ht := h.remains.consistent
  have hparent : ∀ c ∈ t.children n, t.parent c = some n := fun c hc => (ht.mem_children n c).mp hc
  have hperm : ((taken ++ [n]) ++ (t.children n ++ rest)).Perm (t.children n ++ (taken ++ n :: rest)) := by
    rw [show taken ++ n :: rest = (taken ++ [n]) ++ rest by simp]
    exact List.perm_append_comm_assoc ..
  have hmem : ∀ m, m ∈ (taken ++ [n]) ++ (t.children n ++ rest) → m ∈ t.children n ∨ m ∈ taken ++ n :: rest := by
    intro m hm
    exact List.mem_append.mp (hperm.subset hm)
  constructor
  · exact h.remains
  · rw [hperm.nodup_iff, List.nodup_append]
    refine ⟨ht.nodup n, h.once, fun c hc d hd he => ?_⟩
    exact h.children_new hn c hc (he ▸ hd)
  · intro m hm
    rcases hmem m hm with hm | hm
    · exact lt_size_of_parent (hparent m hm)
    · exact h.known m hm
  · intro m hm hb
    rcases hmem m hm with hm | hm
    · exact .inr ⟨n, by simp, hparent m hm⟩
    · apply (h.lister m hm hb).imp_right
      rintro ⟨p, hp, hmp⟩
      exact ⟨p, List.mem_append_left [n] hp, hmp⟩
  · exact h.entered_sub.append (.refl [n])
  · rw [List.map_append]
    exact h.shown_sub.append (.refl [n])
  · intro x hx
    rcases List.mem_append.mp hx with hx | hx
    · exact h.attached x hx
    · rw [List.mem_singleton.mp hx]
      exact (contains_iff_below ht).mpr hn
  · intro u hu
    have horder := h.order u hu
    rw [List.flatMap_cons, List.filter_append, List.filter_append,
      ← Job.filter_walkFrom ht₀ h.remains hn hu] at horder
    have hsplit : (entered ++ [n]) ++ (t.children n ++ rest).flatMap t₀.walkFrom =
        entered ++ ((n :: (t.children n).flatMap t₀.walkFrom) ++ rest.flatMap t₀.walkFrom) := by simp
    rw [hsplit, List.filter_append, List.filter_append, horder]
  · intro u hu
    rw [List.map_append, List.filter_append, List.filter_append, h.shown_eq u hu]
    rfl

end Faithful

variable {σ : Type}

/-- The log of an agenda is faithful. -/
def Tells (t₀ : Tree) (a : Agenda σ) (w : Workspace) : Prop :=
  Faithful t₀ w.tree a.stack a.taken a.entered a.shown

end Agenda

namespace Job

variable {σ : Type} {enter collect : NodeId → σ → Job σ} {a : Agenda σ} {w : Workspace} {t₀ : Tree}

section

variable (henter : ∀ t n s, Preserves (fun w => Edited t w.tree) (enter n s))
  (hcollect : ∀ t n s, Preserves (fun w => w.tree = t) (collect n s)) (ht₀ : t₀.Consistent)

include henter hcollect ht₀

theorem ends_round (h : a.Tells t₀ w) : (round enter collect a).Ends w (fun b w' => b.Tells t₀ w') Whatever := by
  cases hstack : a.stack with
  | nil =>
    rw [round, hstack]
    exact h
  | cons n rest =>
    have hout : ∀ {w : Workspace}, w.tree.Consistent → w.tree.contains n = false → ¬ w.tree.Below w.tree.root n := by
      intro w ht hn hb
      rw [(contains_iff_below ht).mpr hb] at hn
      cases hn
    rw [Agenda.Tells, hstack] at h
    have ht := h.remains.consistent
    rw [round, hstack]
    dsimp only
    rw [ends_bind, ends_get]
    refine ends_ite (fun hn => ?_) fun _ => ?_
    · have hleft := h.left ht₀ (hout ht (by simpa using hn)) (List.nil_sublist [n])
      rw [List.append_nil] at hleft
      exact hleft
    rw [ends_bind]
    refine (henter w.tree n _ w .refl).mono (fun s₁ w₁ hed => ?_) fun _ _ _ => trivial
    have h₁ := h.edited (hed.remains ht)
    have ht₁ := h₁.remains.consistent
    rw [ends_bind, ends_get]
    refine ends_ite (fun hn => ?_) fun hn => ?_
    · exact h₁.left ht₀ (hout ht₁ (by simpa using hn)) (.refl [n])
    rw [ends_bind]
    refine (hcollect w₁.tree n s₁ w₁ rfl).mono (fun s₂ w₂ htree => ?_) fun _ _ _ => trivial
    rw [ends_bind, ends_get, ends_pure, Agenda.Tells, htree]
    exact h₁.visited ht₀ ((contains_iff_below ht₁).mp (by simpa using hn))

theorem ends_rounds (k : Nat) (h : a.Tells t₀ w) :
    (rounds enter collect k a).Ends w (fun b w' => b.Tells t₀ w') Whatever := by
  induction k generalizing a w with
  | zero => exact h
  | succ k ih =>
    rw [rounds, ends_bind]
    exact (ends_round henter hcollect ht₀ h).imp fun _ _ h' => ih h'

end

end Job
end DeadCode
