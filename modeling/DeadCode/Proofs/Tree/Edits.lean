import Mathlib.Data.List.Nodup
import DeadCode.Proofs.Tree.Cut

/-!
The edits of the tree as cuts. On a consistent tree `detach` succeeds for every node that has a parent,
and takes the node and at most one comma; `removeStatement` does so in a list of statements, puts a fresh
empty statement into a slot, and declines anywhere else.
-/

namespace DeadCode.Tree

/-- A cut that leaves the other children of `q` as they are. -/
structure Detached (t t' : Tree) (q n : NodeId) (gone : List NodeId) : Prop
    extends Cut t t' q n gone where
  size_eq : t'.size = t.size
  children_cut : t'.children q = (t.children q).filter (· ∉ gone)
  gone_comma : ∀ g ∈ gone, g = n ∨ t.kind g = .comma

/-- A cut with an empty statement in the place of `n`. -/
structure Replaced (t t' : Tree) (q n : NodeId) : Prop extends Cut t t' q n [n] where
  size_eq : t'.size = t.size + 1
  fresh_field : (t'.node t.size).field = (t.node n).field
  children_cut : t'.children q = (t.children q).map fun c => if c = n then t.size else c

variable {t t' : Tree} {q n : NodeId} {gone : List NodeId}

/-! ## Single changes of the store -/

theorem proj_modify {α : Type} (g : Node → α) {f : Node → Node} (hf : ∀ d, g (f d) = g d)
    (t : Tree) (n m : NodeId) : g ((t.modify n f).node m) = g (t.node m) := by
  rw [node_modify]
  split
  · exact hf _
  · rfl

theorem node_drop (t : Tree) (n m : NodeId) : (t.drop n).node m =
    if n = m ∧ m < t.size then { t.node m with parent := none, removed := true } else t.node m :=
  node_modify t n m _

theorem parent_drop (t : Tree) (n m : NodeId) :
    (t.drop n).parent m = if m = n then none else t.parent m := by
  simp only [parent, node_drop]
  by_cases h : n = m
  · subst h
    rcases lt_or_ge n t.size with hn | hn
    · simp [hn]
    · simpa [not_lt.mpr hn] using show (t.node n).parent = none from parent_eq_none_of_size_le hn
  · simp [h, Ne.symm h]

theorem removed_drop (t : Tree) {n m : NodeId} (h : m ≠ n) :
    ((t.drop n).node m).removed = (t.node m).removed := by
  simp [node_drop, Ne.symm h]

theorem size_drop (t : Tree) (n : NodeId) : (t.drop n).size = t.size := size_modify t n _

theorem size_passLeading (t : Tree) (l : String) (ns : List NodeId) : (t.passLeading l ns).size = t.size := by
  cases ns with
  | nil => rfl
  | cons c ns => exact size_modify t c _

theorem size_dropComma (t : Tree) (c : Option NodeId) : (t.dropComma c).size = t.size := by
  cases c with
  | none => rfl
  | some c => exact size_drop t c

theorem proj_passLeading {α : Type} (g : Node → α) (hg : ∀ d l, g { d with leading := l } = g d)
    (t : Tree) (l : String) (ns : List NodeId) (m : NodeId) :
    g ((t.passLeading l ns).node m) = g (t.node m) := by
  cases ns with
  | nil => rfl
  | cons c ns => exact proj_modify g (fun d => hg d l) t c m

theorem proj_dropComma {α : Type} (g : Node → α)
    (hg : ∀ d, g { d with parent := none, removed := true } = g d) (t : Tree) (c : Option NodeId)
    (m : NodeId) : g ((t.dropComma c).node m) = g (t.node m) := by
  cases c with
  | none => rfl
  | some c => exact proj_modify g hg t c m

/-! ## Detaching -/

theorem eraseIdx_eq_filter {l : List NodeId} (hl : l.Nodup) {i : Nat} {x : NodeId}
    (hx : l[i]? = some x) : l.eraseIdx i = l.filter (· ≠ x) := by
  induction l generalizing i with
  | nil => simp at hx
  | cons a l ih =>
    obtain ⟨ha, hl⟩ := List.nodup_cons.mp hl
    cases i with
    | zero =>
      obtain rfl : a = x := by simpa using hx
      rw [List.filter_cons_of_neg (by simp)]
      exact (List.filter_eq_self.mpr fun b hb => by
        simpa using fun he : b = a => ha (he ▸ hb)).symm
    | succ i =>
      have hx : l[i]? = some x := by simpa using hx
      have hne : a ≠ x := fun he => ha (he ▸ List.mem_of_getElem? hx)
      rw [List.filter_cons_of_pos (by simpa using hne), List.eraseIdx_cons_succ, ih hl hx]

section CutOut

variable (t : Tree) (q n : NodeId) (siblings : List NodeId) (i : Nat)

theorem size_cutOut : (t.cutOut q n siblings i).size = t.size := by
  simp only [cutOut, touch]
  refine (size_drop _ n).trans ?_
  split
  · rw [size_passLeading, size_dropComma, size_modify]
  · rw [size_dropComma, size_modify]

/-- Nothing but the nodes and the version changes. -/
theorem frame_cutOut : (t.cutOut q n siblings i).root = t.root ∧
    (t.cutOut q n siblings i).version = t.version + 1 := by
  have pass : ∀ (t : Tree) l ns, (t.passLeading l ns).root = t.root ∧
      (t.passLeading l ns).version = t.version := by
    intro t l ns
    cases ns <;> exact ⟨rfl, rfl⟩
  have comma : ∀ (t : Tree) c, (t.dropComma c).root = t.root ∧
      (t.dropComma c).version = t.version := by
    intro t c
    cases c <;> exact ⟨rfl, rfl⟩
  simp only [cutOut, touch, drop, modify]
  split
  · exact ⟨(pass _ _ _).1.trans (comma _ _).1, congrArg (· + 1) ((pass _ _ _).2.trans (comma _ _).2)⟩
  · exact ⟨(comma _ _).1, congrArg (· + 1) (comma _ _).2⟩

theorem proj_cutOut {α : Type} (g : Node → α)
    (hchildren : ∀ d cs, g { d with children := cs } = g d)
    (hdrop : ∀ d, g { d with parent := none, removed := true } = g d)
    (hleading : ∀ d l, g { d with leading := l } = g d) (m : NodeId) :
    g ((t.cutOut q n siblings i).node m) = g (t.node m) := by
  simp only [cutOut, touch]
  refine (proj_modify g hdrop _ n m).trans ?_
  split
  · rw [proj_passLeading g hleading, proj_dropComma g hdrop, proj_modify g fun d => hchildren d _]
  · rw [proj_dropComma g hdrop, proj_modify g fun d => hchildren d _]

theorem children_cutOut (hq : q < t.size) (m : NodeId) : (t.cutOut q n siblings i).children m =
    if m = q then without siblings i (t.commaFor? siblings i) else t.children m := by
  have hdrop : ∀ d : Node, Node.children { d with parent := none, removed := true } = d.children :=
    fun _ => rfl
  have hmodify : ∀ m, ((t.modify q fun d => { d with
      children := without siblings i (t.commaFor? siblings i) }).node m).children =
      if m = q then without siblings i (t.commaFor? siblings i) else (t.node m).children := by
    intro m
    rw [node_modify]
    by_cases h : m = q
    · subst h; simp [hq]
    · simp [h, Ne.symm h]
  simp only [cutOut, touch, children]
  refine (proj_modify Node.children hdrop _ n m).trans ?_
  split
  · rw [proj_passLeading Node.children fun _ _ => rfl, proj_dropComma Node.children hdrop, hmodify]
  · rw [proj_dropComma Node.children hdrop, hmodify]

theorem parent_cutOut (m : NodeId) : (t.cutOut q n siblings i).parent m =
    if m ∈ n :: (t.commaOf? siblings i).toList then none else t.parent m := by
  have hmodify : ∀ m, (t.modify q fun d => { d with
      children := without siblings i (t.commaFor? siblings i) }).parent m = t.parent m :=
    fun m => proj_modify Node.parent
      (f := fun d => { d with children := without siblings i (t.commaFor? siblings i) })
      (fun _ => rfl) t q m
  have hcomma : ∀ (u : Tree) c m,
      (u.dropComma c).parent m = if m ∈ c.toList then none else u.parent m := by
    intro u c m
    cases c with
    | none => rfl
    | some c => simpa [dropComma] using parent_drop u c m
  simp only [cutOut, touch]
  refine (parent_drop _ n m).trans ?_
  by_cases hm : m = n
  · simp [hm]
  · simp only [hm, ↓reduceIte, List.mem_cons, false_or]
    split
    · exact (proj_passLeading Node.parent (fun _ _ => rfl) _ _ _ m).trans
        ((hcomma _ _ m).trans (by rw [hmodify]))
    · rw [hcomma, hmodify]

theorem removed_cutOut {m : NodeId} (hm : m ∉ n :: (t.commaOf? siblings i).toList) :
    ((t.cutOut q n siblings i).node m).removed = (t.node m).removed := by
  obtain ⟨hn, hc⟩ := not_or.mp (List.mem_cons.not.mp hm)
  have hcomma : ∀ (u : Tree) (c : Option NodeId), m ∉ c.toList →
      ((u.dropComma c).node m).removed = (u.node m).removed := by
    intro u c hmc
    cases c with
    | none => rfl
    | some c => exact removed_drop u (by simpa using hmc)
  have hmodify := proj_modify Node.removed
    (f := fun d => { d with children := without siblings i (t.commaFor? siblings i) })
    (fun _ => rfl) t q m
  simp only [cutOut, touch]
  refine (removed_drop _ hn).trans ?_
  split
  · rw [proj_passLeading Node.removed fun _ _ => rfl, hcomma _ _ hc, hmodify]
  · rw [hcomma _ _ hc, hmodify]

end CutOut

theorem commaFor?_eq_some {siblings : List NodeId} {i j : Nat} (h : t.commaFor? siblings i = some j) :
    j ≠ i ∧ ∃ c, siblings[j]? = some c ∧ t.kind c = .comma := by
  have isComma : ∀ k, t.isCommaAt siblings k = true →
      ∃ c, siblings[k]? = some c ∧ t.kind c = .comma := by
    intro k hk
    cases hc : siblings[k]? with
    | none => simp [isCommaAt, hc] at hk
    | some c => exact ⟨c, rfl, by simpa [isCommaAt, hc] using hk⟩
  unfold commaFor? at h
  split at h
  · next hk =>
    obtain rfl := Option.some.inj h
    exact ⟨by omega, isComma _ hk⟩
  · split at h
    · next hk =>
      obtain rfl := Option.some.inj h
      exact ⟨by omega, isComma _ hk.2⟩
    · cases h

theorem without_eq_filter {siblings : List NodeId} (hl : siblings.Nodup) {i : Nat}
    (hn : siblings[i]? = some n) : without siblings i (t.commaFor? siblings i) =
      siblings.filter (· ∉ n :: (t.commaOf? siblings i).toList) := by
  cases hj : t.commaFor? siblings i with
  | none =>
    simpa [without, commaOf?, hj] using eraseIdx_eq_filter hl hn
  | some j =>
    obtain ⟨hne, c, hc, _⟩ := commaFor?_eq_some hj
    have two : ∀ {a b : Nat} {x y : NodeId}, b < a → siblings[a]? = some x →
        siblings[b]? = some y → (siblings.eraseIdx a).eraseIdx b =
          siblings.filter fun m => m ≠ x ∧ m ≠ y := by
      intro a b x y hab hx hy
      have hy' : (siblings.eraseIdx a)[b]? = some y := by
        rw [List.getElem?_eraseIdx_of_lt hab, hy]
      rw [eraseIdx_eq_filter (hl.eraseIdx a) hy', eraseIdx_eq_filter hl hx, List.filter_filter]
      exact List.filter_congr fun m _ => by
        by_cases h1 : m = x <;> by_cases h2 : m = y <;> simp [h1, h2]
    simp only [without, commaOf?, hj, Option.bind_some, hc, Option.toList_some]
    rcases Nat.lt_or_gt_of_ne hne with hlt | hgt
    · rw [max_eq_left hlt.le, min_eq_right hlt.le, two hlt hn hc]
      exact List.filter_congr fun m _ => by simp
    · rw [max_eq_right hgt.le, min_eq_left hgt.le, two hgt hc hn]
      exact List.filter_congr fun m _ => by simp [and_comm]

theorem getElem?_of_idxOf? {l : List NodeId} {i : Nat} (h : l.idxOf? n = some i) : l[i]? = some n := by
  obtain ⟨hlt, hget, _⟩ := List.idxOf?_eq_some_iff.mp h
  rw [List.getElem?_eq_getElem hlt, hget]

/-- A child has a place among the children. -/
theorem idxOf?_child (ht : t.Consistent) (hp : t.parent n = some q) : ∃ i, (t.children q).idxOf? n = some i :=
  Option.isSome_iff_exists.mp (List.isSome_idxOf?.mpr ((ht.mem_children q n).mpr hp))

/-- The comma that goes with a child is a child next to it. -/
theorem comma_of_commaOf? (ht : t.Consistent) {i : Nat} {g : NodeId}
    (hg : t.commaOf? (t.children q) i = some g) : t.parent g = some q ∧ t.kind g = .comma := by
  obtain ⟨j, hj, hc⟩ := Option.bind_eq_some_iff.mp hg
  obtain ⟨_, c, hc', hk⟩ := commaFor?_eq_some hj
  rw [hc'] at hc
  obtain rfl := Option.some.inj hc
  exact ⟨(ht.mem_children q c).mp (List.mem_of_getElem? hc'), hk⟩

theorem detached_cutOut (ht : t.Consistent) (hp : t.parent n = some q) {i : Nat}
    (hn : (t.children q)[i]? = some n) : Detached t (t.cutOut q n (t.children q) i) q n
      (n :: (t.commaOf? (t.children q) i).toList) := by
  have hq : q < t.size := ht.parent_lt hp
  have hsame {α : Type} (g : Node → α) := proj_cutOut t q n (t.children q) i g
  have hchildren := children_cutOut t q n (t.children q) i hq
  have hparent := parent_cutOut t q n (t.children q) i
  have hsize := size_cutOut t q n (t.children q) i
  have hframe := frame_cutOut t q n (t.children q) i
  have hcut : (t.cutOut q n (t.children q) i).children q =
      (t.children q).filter (· ∉ n :: (t.commaOf? (t.children q) i).toList) := by
    rw [hchildren, if_pos rfl, without_eq_filter (ht.nodup q) hn]
  have hgone : ∀ g ∈ n :: (t.commaOf? (t.children q) i).toList,
      t.parent g = some q ∧ (g = n ∨ t.kind g = .comma) := by
    intro g hg
    rcases List.mem_cons.mp hg with rfl | hg
    · exact ⟨hp, .inl rfl⟩
    · exact (comma_of_commaOf? ht (Option.mem_toList.mp hg)).imp_right .inr
  exact {
    root := hframe.1
    version := hframe.2
    size_le := hsize.ge
    kind_eq := fun m _ => hsame Node.kind (fun _ _ => rfl) (fun _ => rfl) (fun _ _ => rfl) m
    text_eq := fun m _ => hsame Node.text (fun _ _ => rfl) (fun _ => rfl) (fun _ _ => rfl) m
    named_eq := fun m _ => hsame Node.named (fun _ _ => rfl) (fun _ => rfl) (fun _ _ => rfl) m
    field_eq := fun m _ => hsame Node.field (fun _ _ => rfl) (fun _ => rfl) (fun _ _ => rfl) m
    node_mem := List.mem_cons_self
    parent_of_gone := fun g hg => (hgone g hg).1
    parent_gone := fun g hg => by rw [hparent, if_pos hg]
    parent_kept := fun m _ hg => by rw [hparent, if_neg hg]
    removed_kept := fun m _ hg => removed_cutOut t q n (t.children q) i hg
    children_other := fun m hm => by rw [hchildren, if_neg hm]
    children_old := by
      rw [hcut, List.filter_filter]
      refine List.filter_congr fun c hc => ?_
      simp [lt_size_of_parent ((ht.mem_children q c).mp hc)]
    children_nodup := hcut ▸ (ht.nodup q).filter _
    fresh_iff := fun m hm => by
      rw [hcut, hsize]
      refine ⟨fun hc => ?_, fun hlt => absurd hlt (not_lt.mpr hm)⟩
      exact lt_size_of_parent ((ht.mem_children q m).mp (List.mem_filter.mp hc).1)
    fresh_parent := fun m hm hlt => absurd (hsize ▸ hlt) (not_lt.mpr hm)
    fresh_kind := fun m hm hlt => absurd (hsize ▸ hlt) (not_lt.mpr hm)
    fresh_removed := fun m hm _ => hsize ▸ hm
    size_eq := hsize
    children_cut := hcut
    gone_comma := fun g hg => (hgone g hg).2 }

/-- A node with a parent can be detached. -/
theorem detach_eq_ok (ht : t.Consistent) (hp : t.parent n = some q) :
    ∃ t' gone, t.detach n = .ok t' ∧ Detached t t' q n gone := by
  have hremoved := ht.removed_of_parent hp
  obtain ⟨i, hi⟩ := idxOf?_child ht hp
  exact ⟨_, _, by simp [detach, hp, hremoved, hi], detached_cutOut ht hp (getElem?_of_idxOf? hi)⟩

theorem detached_of_parent (ht : t.Consistent) (hp : t.parent n = some q) (h : t.detach n = .ok t') :
    ∃ gone, Detached t t' q n gone := by
  obtain ⟨u, gone, hok, hd⟩ := detach_eq_ok ht hp
  obtain rfl := Except.ok.inj (h.symm.trans hok)
  exact ⟨gone, hd⟩

/-! ## Replacing by an empty statement -/

/-- The tree in which `new` stands where `old` stood, at `i` among the children of `q`. -/
def exchange (t : Tree) (q old new : NodeId) (i : Nat) : Tree :=
  let placed := t.modify new fun d => { d with parent := some q, field := (t.node old).field }
  ((placed.modify q fun d => { d with children := d.children.set i new }).drop old).touch

section Exchange

variable (t : Tree) (q old new : NodeId) (i : Nat)

theorem size_exchange : (t.exchange q old new i).size = t.size := by
  refine (size_drop _ old).trans ?_
  rw [size_modify, size_modify]

theorem proj_exchange {α : Type} (g : Node → α) (hplace : ∀ d p f, g { d with parent := p, field := f } = g d)
    (hchildren : ∀ d cs, g { d with children := cs } = g d)
    (hdrop : ∀ d, g { d with parent := none, removed := true } = g d) (m : NodeId) :
    g ((t.exchange q old new i).node m) = g (t.node m) := by
  refine (proj_modify g hdrop _ old m).trans ?_
  rw [proj_modify g fun d => hchildren d _, proj_modify g fun d => hplace d _ _]

theorem children_exchange (hq : q < t.size) (m : NodeId) : (t.exchange q old new i).children m =
    if m = q then (t.children q).set i new else t.children m := by
  have hplace : ∀ m, ((t.modify new fun d =>
      { d with parent := some q, field := (t.node old).field }).node m).children = t.children m :=
    proj_modify Node.children (f := fun d => { d with parent := some q, field := (t.node old).field })
      (fun _ => rfl) t new
  refine (proj_modify Node.children (f := fun d => { d with parent := none, removed := true })
    (fun _ => rfl) _ old m).trans ?_
  rw [node_modify]
  by_cases hm : m = q
  · subst hm
    rw [if_pos ⟨rfl, by rwa [size_modify]⟩, if_pos rfl, ← hplace]
  · rw [if_neg (fun h => hm h.1.symm), if_neg hm, hplace]

theorem parent_exchange (hnew : new < t.size) (m : NodeId) : (t.exchange q old new i).parent m =
    if m = old then none else if m = new then some q else t.parent m := by
  refine (parent_drop _ old m).trans ?_
  split
  · rfl
  · refine (proj_modify Node.parent (f := fun d => { d with children := d.children.set i new })
      (fun _ => rfl) _ q m).trans ?_
    rw [node_modify]
    by_cases hm : m = new
    · rw [if_pos ⟨hm.symm, hm ▸ hnew⟩, if_pos hm]
    · rw [if_neg (fun h => hm h.1.symm), if_neg hm]
      rfl

theorem field_exchange (hnew : new < t.size) (m : NodeId) : ((t.exchange q old new i).node m).field =
    if m = new then (t.node old).field else (t.node m).field := by
  refine (proj_modify Node.field (f := fun d => { d with parent := none, removed := true })
    (fun _ => rfl) _ old m).trans ?_
  rw [proj_modify Node.field (f := fun d => { d with children := d.children.set i new }) (fun _ => rfl),
    node_modify]
  by_cases hm : m = new
  · rw [if_pos ⟨hm.symm, hm ▸ hnew⟩, if_pos hm]
  · rw [if_neg (fun h => hm h.1.symm), if_neg hm]

theorem removed_exchange {m : NodeId} (hm : m ≠ old) :
    ((t.exchange q old new i).node m).removed = (t.node m).removed := by
  refine (removed_drop _ hm).trans ?_
  rw [proj_modify Node.removed (f := fun d => { d with children := d.children.set i new }) (fun _ => rfl)]
  exact proj_modify Node.removed (f := fun d => { d with parent := some q, field := (t.node old).field })
    (fun _ => rfl) t new m

end Exchange

theorem replace_eq_exchange {old new : NodeId} (hp : t.parent old = some q) {i : Nat}
    (hi : (t.children q).idxOf? old = some i) : t.replace old new = .ok (t.exchange q old new i) := by
  simp [replace, hp, hi, exchange]

theorem size_addEmptyStatement (t : Tree) (n : NodeId) : (t.addEmptyStatement n).2.size = t.size + 1 :=
  size_add t _

theorem node_addEmptyStatement (t : Tree) (n : NodeId) {m : NodeId} (hm : m < t.size) :
    (t.addEmptyStatement n).2.node m = t.node m := by
  rw [addEmptyStatement, node_add, if_neg (ne_of_lt hm)]

theorem fresh_addEmptyStatement (t : Tree) (n : NodeId) :
    (t.addEmptyStatement n).2.kind t.size = .emptyStatement ∧
      ((t.addEmptyStatement n).2.node t.size).removed = false := by
  rw [kind, addEmptyStatement, node_add, if_pos rfl]
  exact ⟨rfl, rfl⟩

theorem children_add {d : Node} (hd : d.children = []) (m : NodeId) : (t.add d).2.children m = t.children m := by
  rw [children, node_add]
  split
  · rename_i hm
    rw [hd, children_eq_nil_of_size_le hm.ge]
  · rfl

theorem children_addEmptyStatement (t : Tree) (n m : NodeId) :
    (t.addEmptyStatement n).2.children m = t.children m :=
  children_add rfl m

theorem set_eq_map {l : List NodeId} (hl : l.Nodup) {i : Nat} {x y : NodeId}
    (hx : l[i]? = some x) : l.set i y = l.map fun c => if c = x then y else c := by
  induction l generalizing i with
  | nil => rfl
  | cons a l ih =>
    obtain ⟨ha, hl⟩ := List.nodup_cons.mp hl
    cases i with
    | zero =>
      obtain rfl : a = x := by simpa using hx
      have : l.map (fun c => if c = a then y else c) = l := by
        conv_rhs => rw [← List.map_id l]
        exact List.map_congr_left fun c hc => if_neg fun he : c = a => ha (he ▸ hc)
      rw [List.set_cons_zero, List.map_cons, if_pos rfl, this]
    | succ i =>
      have hx : l[i]? = some x := by simpa using hx
      have hne : a ≠ x := fun he => ha (he ▸ List.mem_of_getElem? hx)
      rw [List.set_cons_succ, List.map_cons, if_neg hne, ih hl hx]

section Fresh

variable {l : List NodeId} {k : Nat} (hl : ∀ c ∈ l, c < k)

include hl

/-- With a fresh member in the place of `n`, the old members are those besides `n`. -/
theorem filter_fresh (n : NodeId) :
    (l.map fun c => if c = n then k else c).filter (· < k) = l.filter (· ∉ [n]) := by
  rw [List.filter_map]
  have hold : l.filter ((decide <| · < k) ∘ fun c => if c = n then k else c) = l.filter (· ∉ [n]) := by
    refine List.filter_congr fun c hc => ?_
    by_cases h : c = n <;> simp [h, hl c hc]
  rw [hold]
  conv_rhs => rw [← List.map_id (l.filter (· ∉ [n]))]
  refine List.map_congr_left fun c hc => if_neg fun h => ?_
  simp [h] at hc

theorem nodup_fresh (hnd : l.Nodup) (n : NodeId) : (l.map fun c => if c = n then k else c).Nodup := by
  refine List.Nodup.map_on (fun c hc d hd h => ?_) hnd
  split_ifs at h with h1 h2 h2
  · rw [h1, h2]
  · exact absurd h.symm (ne_of_lt (hl d hd))
  · exact absurd h (ne_of_lt (hl c hc))
  · exact h

theorem mem_fresh_iff {n : NodeId} (hn : n ∈ l) {m : NodeId} (hm : k ≤ m) :
    (m ∈ l.map fun c => if c = n then k else c) ↔ m = k := by
  rw [List.mem_map]
  constructor
  · rintro ⟨c, hc, rfl⟩
    split_ifs at hm ⊢
    · rfl
    · exact absurd (hl c hc) (not_lt.mpr hm)
  · rintro rfl
    exact ⟨n, hn, if_pos rfl⟩

end Fresh

theorem replaced_exchange (ht : t.Consistent) (hp : t.parent n = some q) {i : Nat}
    (hget : (t.children q)[i]? = some n) :
    Replaced t ((t.addEmptyStatement n).2.exchange q n t.size i) q n := by
  have hn : n < t.size := lt_size_of_parent hp
  have hq : q < t.size := ht.parent_lt hp
  set u := (t.addEmptyStatement n).2 with hu
  have hold : ∀ m < t.size, u.node m = t.node m := fun m hm => node_addEmptyStatement t n hm
  have hsize : u.size = t.size + 1 := size_addEmptyStatement t n
  have hnew : t.size < u.size := hsize ▸ Nat.lt_succ_self _
  have huc : ∀ m, u.children m = t.children m := children_addEmptyStatement t n
  obtain ⟨hkind, hstands⟩ := fresh_addEmptyStatement t n
  have same {α : Type} (g : Node → α) := proj_exchange u q n t.size i g
  have hparent := parent_exchange u q n t.size i hnew
  have hfield := field_exchange u q n t.size i hnew
  have hlisted : ∀ c ∈ t.children q, c < t.size := fun c hc => lt_size_of_parent ((ht.mem_children q c).mp hc)
  have hcut : (u.exchange q n t.size i).children q =
      (t.children q).map fun c => if c = n then t.size else c := by
    rw [children_exchange u q n t.size i (hq.trans hnew), if_pos rfl, huc, set_eq_map (ht.nodup q) hget]
  have hsize' : (u.exchange q n t.size i).size = t.size + 1 := (size_exchange ..).trans hsize
  have honly : ∀ m, t.size ≤ m → (m < (u.exchange q n t.size i).size ↔ m = t.size) := fun m hm => by
    rw [hsize', Nat.lt_succ_iff]
    exact ⟨fun h => le_antisymm h hm, fun h => h.le⟩
  exact {
    root := rfl
    version := rfl
    size_le := by rw [hsize']; exact Nat.le_succ _
    kind_eq := fun m hm => (same Node.kind (fun _ _ _ => rfl) (fun _ _ => rfl) (fun _ => rfl) m).trans
      (by rw [hold m hm]; rfl)
    text_eq := fun m hm => (same Node.text (fun _ _ _ => rfl) (fun _ _ => rfl) (fun _ => rfl) m).trans
      (by rw [hold m hm]; rfl)
    named_eq := fun m hm => (same Node.named (fun _ _ _ => rfl) (fun _ _ => rfl) (fun _ => rfl) m).trans
      (by rw [hold m hm])
    field_eq := fun m hm => by rw [hfield, if_neg (ne_of_lt hm), hold m hm]
    node_mem := List.mem_cons_self
    parent_of_gone := fun g hg => by rw [List.mem_singleton.mp hg, hp]
    parent_gone := fun g hg => by rw [hparent, if_pos (List.mem_singleton.mp hg)]
    parent_kept := fun m hm hg => by
      rw [hparent, if_neg (fun h => hg (List.mem_singleton.mpr h)), if_neg (ne_of_lt hm), parent, hold m hm]
      rfl
    removed_kept := fun m hm hg => by
      rw [removed_exchange u q n t.size i fun h => hg (List.mem_singleton.mpr h), hold m hm]
    children_other := fun m hm => by
      rw [children_exchange u q n t.size i (hq.trans hnew), if_neg hm, huc]
    children_old := by rw [hcut, filter_fresh hlisted]
    children_nodup := by
      rw [hcut]
      exact nodup_fresh hlisted (ht.nodup q) n
    fresh_iff := fun m hm => by
      rw [hcut, mem_fresh_iff hlisted ((ht.mem_children q n).mpr hp) hm, honly m hm]
    fresh_parent := fun m hm hlt => by
      rw [(honly m hm).mp hlt, hparent, if_neg (ne_of_gt hn), if_pos rfl]
    fresh_kind := fun m hm hlt => by
      obtain rfl := (honly m hm).mp hlt
      exact (same Node.kind (fun _ _ _ => rfl) (fun _ _ => rfl) (fun _ => rfl) _).trans hkind
    fresh_removed := fun m hm hr => by
      by_contra hlt
      obtain rfl := (honly m hm).mp (not_le.mp hlt)
      rw [removed_exchange u q n t.size i (ne_of_gt hn), hstands] at hr
      cases hr
    size_eq := hsize'
    fresh_field := by rw [hfield, if_pos rfl, hold n hn]
    children_cut := hcut }

theorem replace_addEmptyStatement (hp : t.parent n = some q) {i : Nat} (hi : (t.children q).idxOf? n = some i) :
    (t.addEmptyStatement n).2.replace n t.size = .ok ((t.addEmptyStatement n).2.exchange q n t.size i) := by
  refine replace_eq_exchange ?_ ?_
  · rw [parent, node_addEmptyStatement t n (lt_size_of_parent hp)]
    exact hp
  · rw [children_addEmptyStatement, hi]

/-- A statement with a parent can be replaced by an empty statement. -/
theorem replace_eq_ok (ht : t.Consistent) (hp : t.parent n = some q) :
    ∃ t', (t.addEmptyStatement n).2.replace n (t.addEmptyStatement n).1 = .ok t' ∧
      Replaced t t' q n := by
  obtain ⟨i, hi⟩ := idxOf?_child ht hp
  exact ⟨_, replace_addEmptyStatement hp hi, replaced_exchange ht hp (getElem?_of_idxOf? hi)⟩

/-! ## Removing a statement -/

/-- A statement leaves a list of statements, or makes room for an empty one in a slot. -/
def StatementCut (t t' : Tree) (q n : NodeId) : Prop :=
  ((t.kind q).listsStatements = true ∧ ∃ gone, Detached t t' q n gone) ∨
    ((t.kind q).hasSlot (t.node n).field = true ∧ Replaced t t' q n)

/-- A statement with a parent is removed unless its place is neither a list nor a slot. -/
theorem removeStatement_eq_ok (ht : t.Consistent) (hp : t.parent n = some q) :
    (∃ t', t.removeStatement n = .ok (some t') ∧ StatementCut t t' q n) ∨
      t.removeStatement n = .ok none ∧ (t.kind q).listsStatements = false ∧
        (t.kind q).hasSlot (t.node n).field = false := by
  by_cases hlist : (t.kind q).listsStatements = true
  · obtain ⟨t', gone, hd, hcut⟩ := detach_eq_ok ht hp
    exact .inl ⟨t', by simp [removeStatement, hp, hlist, hd, Except.map], .inl ⟨hlist, gone, hcut⟩⟩
  · by_cases hslot : (t.kind q).hasSlot (t.node n).field = true
    · obtain ⟨t', hr, hcut⟩ := replace_eq_ok ht hp
      exact .inl ⟨t', by simp [removeStatement, hp, hlist, hslot, hr, Except.map], .inr ⟨hslot, hcut⟩⟩
    · exact .inr ⟨by simp [removeStatement, hp, hlist, hslot], by simpa using hlist, by simpa using hslot⟩

end DeadCode.Tree
