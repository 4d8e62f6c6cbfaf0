import DeadCode.Proofs.Print.Pieces
import DeadCode.Proofs.Tree.Detach

/-!
The printed text by its nodes. Every node gives its share to the text of its parent, the text before it and what its
subtree prints, and an inner node prints the shares of its children (`shown_eq`). Around a node that is in no comment
stands the same in two trees that differ only below it (`render_same`).
-/

namespace DeadCode.Tree

/-- What the subtree of a node prints with comments dropped, without its own leading text. -/
def shown (t : Tree) (n : NodeId) : String := t.print .dropped t.size n

/-- What a node gives to the text of its parent. -/
def share (t : Tree) (n : NodeId) : String := (t.node n).leading ++ t.shown n

def shares (t : Tree) (ns : List NodeId) : String := String.join (ns.map t.share)

/-- The node is a comment or lies in one. -/
def InComment (t : Tree) (n : NodeId) : Prop := ∃ c, t.Below c n ∧ t.kind c = .comment

variable {t t' : Tree} {p n a c m : NodeId}

theorem shares_append (t : Tree) (as bs : List NodeId) : t.shares (as ++ bs) = t.shares as ++ t.shares bs := by
  simp [shares]

theorem shares_cons (t : Tree) (a : NodeId) (as : List NodeId) : t.shares (a :: as) = t.share a ++ t.shares as := by
  simp [shares]

theorem shares_congr {as : List NodeId} (h : ∀ a ∈ as, t'.share a = t.share a) : t'.shares as = t.shares as := by
  rw [shares, List.map_congr_left h, shares]

theorem inComment_child (hp : t.parent c = some p) : t.InComment c ↔ t.kind c = .comment ∨ t.InComment p := by
  constructor
  · rintro ⟨d, hd, hk⟩
    cases hd with
    | refl => exact .inl hk
    | step hp' hd =>
      obtain rfl := Option.some.inj (hp.symm.trans hp')
      exact .inr ⟨d, hd, hk⟩
  · rintro (hk | ⟨d, hd, hk⟩)
    · exact ⟨c, .refl, hk⟩
    · exact ⟨d, .step hp hd, hk⟩

/-! ## What one node prints -/

theorem shown_comment (hn : t.Below t.root n) (ht : t.Consistent) (h : t.kind n = .comment) :
    t.shown n = commentGap (t.text n) := by
  obtain ⟨k, hk⟩ := Nat.exists_eq_add_one_of_ne_zero (Nat.ne_zero_of_lt (hn.lt_size ht))
  rw [shown, hk, ← spell_pieces, pieces_comment h, spell_singleton]
  rfl

/-- Any other node prints its text, or the shares of its children if it has some, and what trails it. -/
theorem shown_eq (hn : t.Below t.root n) (ht : t.Consistent) (h : t.kind n ≠ .comment) :
    t.shown n = (if t.children n = [] then t.text n else t.shares (t.children n)) ++ (t.node n).trailing := by
  obtain ⟨k, hk⟩ := Nat.exists_eq_add_one_of_ne_zero (Nat.ne_zero_of_lt (hn.lt_size ht))
  have hg : t.Grounded (k + 1) n := hk ▸ hn.grounded ht
  rw [shown, hk, ← spell_pieces]
  by_cases hleaf : t.children n = []
  · rw [pieces_leaf h hleaf, if_pos hleaf, spell_cons, spell_singleton]
    rfl
  · rw [pieces_inner h hleaf, if_neg hleaf, spell_append, spell_singleton, spell_flatMap, shares]
    have hchildren : (t.children n).map (fun c => spell (.gap (t.node c).leading :: t.pieces k c)) =
        (t.children n).map t.share := by
      apply List.map_congr_left
      intro c hc
      rw [spell_cons, ← pieces_mono (Nat.le_succ k) (hg c hc), spell_pieces, share, shown, hk]
      rfl
    rw [hchildren]
    rfl

theorem print_same (k : Nat) (h : ∀ m, t.Below a m → t'.node m = t.node m) (ht : t.Consistent) :
    t'.print .dropped k a = t.print .dropped k a := by
  induction k generalizing a with
  | zero => rfl
  | succ k ih =>
    have hchildren : ∀ c ∈ (t.node a).children, t'.print .dropped k c = t.print .dropped k c := by
      intro c hc
      apply ih
      intro m hm
      exact h m ((Below.of_parent ((ht.mem_children a c).mp hc)).trans hm)
    have hleading : ∀ c ∈ (t.node a).children, (t'.node c).leading = (t.node c).leading := by
      intro c hc
      rw [h c (.of_parent ((ht.mem_children a c).mp hc))]
    rw [print, print, h a .refl, List.map_congr_left fun c hc => by rw [hchildren c hc, hleading c hc]]

/-- A subtree prints the same if all of it is the same, but for the text before it. -/
theorem shown_same (ht : t.Consistent) (hsize : t'.size = t.size) (ha : t.Below t.root a)
    (hself : ∃ l, t'.node a = { t.node a with leading := l })
    (h : ∀ m, t.Below a m → m ≠ a → t'.node m = t.node m) : t'.shown a = t.shown a := by
  obtain ⟨k, hk⟩ := Nat.exists_eq_add_one_of_ne_zero (Nat.ne_zero_of_lt (ha.lt_size ht))
  obtain ⟨l, hself⟩ := hself
  have hbelow : ∀ c ∈ (t.node a).children, ∀ m, t.Below c m → t'.node m = t.node m := by
    intro c hc m hm
    have hp := (ht.mem_children a c).mp hc
    apply h m ((Below.of_parent hp).trans hm)
    rintro rfl
    exact not_below_of_parent ht ha hp hm
  have hchildren : ∀ c ∈ (t.node a).children, (t'.node c).leading ++ t'.print .dropped k c =
      (t.node c).leading ++ t.print .dropped k c := by
    intro c hc
    rw [hbelow c hc c .refl, print_same k (hbelow c hc) ht]
  rw [shown, shown, hsize, hk, print, print, hself]
  simp only [List.map_congr_left hchildren]

/-! ## What stands around a node -/

/-- `front` and `back` are what the tree prints before the subtree of the node and behind it. -/
inductive Around (t : Tree) : NodeId → String → String → Prop
  | root : Around t t.root (t.node t.root).leading ""
  | child {q p : NodeId} {front back : String} {before after : List NodeId} : Around t q front back →
      t.children q = before ++ p :: after →
        Around t p (front ++ t.shares before ++ (t.node p).leading) (t.shares after ++ (t.node q).trailing ++ back)

theorem shown_comment_same {cs : List NodeId} (ht : t.Consistent) (ht' : t'.Consistent) (hp : t.Below t.root p)
    (hp' : t'.Below t'.root p) (hself : t'.node p = { t.node p with children := cs }) (hk : t.kind p = .comment) :
    t'.shown p = t.shown p := by
  have hk' : t'.kind p = .comment := by
    rw [kind, hself]
    exact hk
  have htext : t'.text p = t.text p := by rw [text, hself, text]
  rw [shown_comment hp' ht' hk', shown_comment hp ht hk, htext]

section Around

variable {cs : List NodeId} {front back : String} (ht : t.Consistent)

include ht

theorem exists_around (hp : t.Below t.root p) : ∃ front back, t.Around p front back := by
  induction hp with
  | refl => exact ⟨_, _, .root⟩
  | @step q p hp _ ih =>
    obtain ⟨front, back, h⟩ := ih
    obtain ⟨before, after, hc⟩ := List.append_of_mem ((ht.mem_children q p).mpr hp)
    exact ⟨_, _, .child h hc⟩

theorem Around.attached (h : t.Around p front back) : t.Below t.root p := by
  induction h with
  | root => exact .refl
  | child _ hc ih => exact .step ((ht.mem_children _ _).mp (hc ▸ by simp)) ih

/-- A node above which there is no comment is printed where it stands. -/
theorem Around.render (h : t.Around p front back) (hp : ∀ q, t.parent p = some q → ¬ t.InComment q) :
    t.render = front ++ t.shown p ++ back := by
  induction h with
  | root => exact String.append_empty.symm
  | @child q p front back before after h hc ih =>
    have hq := hp q ((ht.mem_children q p).mp (hc ▸ by simp))
    have hk : t.kind q ≠ .comment := fun hk => hq ⟨q, .refl, hk⟩
    rw [ih fun r hr hcomment => hq ((inComment_child hr).mpr (.inr hcomment)), shown_eq (h.attached ht) ht hk, hc,
      if_neg (by simp), shares_append, shares_cons, share]
    simp only [String.append_assoc]

/-- Beside a node its siblings print the same in two trees that differ only below it. -/
theorem share_beside (hsize : t'.size = t.size) {q d : NodeId} (hq : t.Below t.root q) (hp : t.parent p = some q)
    (hd : t.parent d = some q) (hne : d ≠ p) (hsame : ∀ m, ¬ t.Below p m → t'.node m = t.node m) :
    t'.share d = t.share d := by
  have hapart : ∀ m, t.Below d m → t'.node m = t.node m := by
    intro m hm
    apply hsame
    intro hpm
    exact siblings_apart ht hq hd hp hne hm hpm
  have hshown : t'.shown d = t.shown d :=
    shown_same ht hsize (.step hd hq) ⟨_, hapart d .refl⟩ fun m hm _ => hapart m hm
  rw [share, share, hshown, hapart d .refl]

/-- Two trees that differ only below a node, and in the child list of it, print the same around it. -/
theorem Around.same (h : t.Around p front back) (hroot : t'.root = t.root) (hsize : t'.size = t.size)
    (hself : t'.node p = { t.node p with children := cs }) (hsame : ∀ m, ¬ t.Below p m → t'.node m = t.node m) :
    t'.Around p front back := by
  induction h generalizing cs with
  | root =>
    have h : t'.Around t'.root (t'.node t'.root).leading "" := .root
    rwa [hroot, hself] at h
  | @child q p front back before after h hc ih =>
    have hq := h.attached ht
    have hchild : ∀ d ∈ before ++ p :: after, t.parent d = some q := fun d hd => (ht.mem_children q d).mp (hc ▸ hd)
    have hp := hchild p (by simp)
    have hnode : t'.node q = t.node q := hsame q (not_below_of_parent ht hq hp)
    have hself' : t'.node q = { t.node q with children := t.children q } := hnode
    have h' := ih hself' fun m hm => hsame m fun hb => hm ((Below.of_parent hp).trans hb)
    obtain ⟨hbefore, hafter⟩ := not_mem_siblings ht hc
    have hfront : t'.shares before = t.shares before := by
      apply shares_congr
      intro d hd
      exact share_beside ht hsize hq hp (hchild d (by simp [hd])) (fun hdp => hbefore (hdp ▸ hd)) hsame
    have hback : t'.shares after = t.shares after := by
      apply shares_congr
      intro d hd
      exact share_beside ht hsize hq hp (hchild d (by simp [hd])) (fun hdp => hafter (hdp ▸ hd)) hsame
    have hchildren : t'.children q = before ++ p :: after := by
      rw [children, hnode]
      exact hc
    have hchild' := Around.child h' hchildren
    rwa [hfront, hback, hself, hnode] at hchild'

omit ht in
/-- What is above a node does not change with what is below it. -/
theorem below_outside (hsame : ∀ m, ¬ t.Below p m → t'.node m = t.node m) (hm : ¬ t.Below p m) (h : t'.Below c m) :
    t.Below c m ∧ t'.kind c = t.kind c := by
  induction h with
  | refl => exact ⟨.refl, by rw [kind, hsame c hm, kind]⟩
  | @step q m hq _ ih =>
    rw [parent, hsame m hm] at hq
    obtain ⟨hb, hk⟩ := ih fun h => hm (.step hq h)
    exact ⟨.step hq hb, hk⟩

/-- Two trees that differ only below a node, and in the child list of it, print the same around it if there is no
comment above it. -/
theorem render_same (ht' : t'.Consistent) (hroot : t'.root = t.root) (hsize : t'.size = t.size)
    (hp : t.Below t.root p) (habove : ∀ q, t.parent p = some q → ¬ t.InComment q)
    (hself : t'.node p = { t.node p with children := cs }) (hsame : ∀ m, ¬ t.Below p m → t'.node m = t.node m) :
    ∃ front back, t.Around p front back ∧ t'.Around p front back ∧ t.render = front ++ t.shown p ++ back ∧
      t'.render = front ++ t'.shown p ++ back := by
  obtain ⟨front, back, h⟩ := exists_around ht hp
  have h' := h.same ht hroot hsize hself hsame
  refine ⟨front, back, h, h', h.render ht habove, h'.render ht' ?_⟩
  rintro q hq ⟨c, hc, hk⟩
  have hq : t.parent p = some q := by rwa [parent, hself] at hq
  obtain ⟨hc, hk'⟩ := below_outside hsame (not_below_of_parent ht (hp.of_child ht hq) hq) hc
  exact habove q hq ⟨c, hc, hk'.symm.trans hk⟩

/-- The outermost comment that holds a node. -/
theorem exists_outermost (hp : t.Below t.root p) (h : t.InComment p) : ∃ c, t.Below t.root c ∧ t.Below c p ∧
    t.kind c = .comment ∧ ∀ q, t.parent c = some q → ¬ t.InComment q := by
  induction hp with
  | refl =>
    obtain ⟨c, hc, hk⟩ := h
    have hnone : ∀ q, t.parent t.root ≠ some q := by simp [ht.root_parent]
    cases hc with
    | refl => exact ⟨t.root, .refl, .refl, hk, fun q hq => absurd hq (hnone q)⟩
    | step hq _ => exact absurd hq (hnone _)
  | @step q p hp hq ih =>
    by_cases hcomment : t.InComment q
    · obtain ⟨c, hroot, hc, hrest⟩ := ih hcomment
      exact ⟨c, hroot, .step hp hc, hrest⟩
    · refine ⟨p, .step hp hq, .refl, ((inComment_child hp).mp h).resolve_right hcomment, fun r hr => ?_⟩
      rwa [← Option.some.inj (hp.symm.trans hr)]

/-- What is in a comment is not printed. -/
theorem render_inComment (ht' : t'.Consistent) (hroot : t'.root = t.root) (hsize : t'.size = t.size)
    (hp : t.Below t.root p) (hcomment : t.InComment p) (hself : t'.node p = { t.node p with children := cs })
    (hsame : ∀ m, ¬ t.Below p m → t'.node m = t.node m) : t'.render = t.render := by
  obtain ⟨c, hc, hcp, hk, habove⟩ := exists_outermost ht hp hcomment
  have hnode : ∃ cs, t'.node c = { t.node c with children := cs } := by
    by_cases hpc : t.Below p c
    · obtain rfl := hp.antisymm ht hpc hcp
      exact ⟨_, hself⟩
    · exact ⟨t.children c, hsame c hpc⟩
  obtain ⟨cs', hnode⟩ := hnode
  obtain ⟨front, back, _, haround, hr, hr'⟩ := render_same ht ht' hroot hsize hc habove hnode
    fun m hm => hsame m fun hpm => hm (hcp.trans hpm)
  rw [hr, hr', shown_comment_same ht ht' hc (haround.attached ht') hnode hk]

end Around
end DeadCode.Tree
