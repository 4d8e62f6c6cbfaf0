import DeadCode.Proofs.Print.Parts
import DeadCode.Proofs.Tree.Consistent

/-!
The tree copied from an outline. The node of a name is the part of the outline that has this place in pre-order
(`copied`), its leading text is the stretch between it and what stands before it (`leading_copied`), and child
lists and parent links agree (`consistent_ofOutline`).
-/

namespace DeadCode.Tree

open Outline

/-- The store holds some nodes in a row, the first of them under the given name. -/
def Holds (t : Tree) (name : NodeId) (ds : List Node) : Prop :=
  ∀ i d, ds[i]? = some d → t.nodes[name + i]? = some d

/-- The node `n` is the copy of `p`, and the copies of what is below `p` come next. -/
structure Copied (t : Tree) (bytes : ByteArray) (n : NodeId) (p : Outline) : Prop where
  lt : n < t.size
  kind : t.kind n = p.head.kind
  text : t.text n = if p.children.isEmpty then textAt bytes p.head.start p.head.stop else ""
  removed : (t.node n).removed = false
  children : t.children n = names (n + 1) p.children
  below : t.Holds (n + 1) (copyAll bytes n p.head.start (n + 1) p.children)

variable {t : Tree} {bytes : ByteArray} {o p : Outline} {cs : List Outline} {path : Option String}
  {n name parent previous : Nat} {up : Option NodeId} {lead : String} {d : Node} {ds es : List Node}

/-! ## Nodes in a row -/

namespace Holds

theorem left (h : t.Holds name (ds ++ es)) : t.Holds name ds := fun i d hd => by
  refine h i d ?_
  rw [List.getElem?_append_left (List.getElem?_eq_some_iff.mp hd).1, hd]

theorem right (h : t.Holds name (ds ++ es)) : t.Holds (name + ds.length) es := fun i d hd => by
  rw [Nat.add_assoc]
  refine h _ d ?_
  rw [List.getElem?_append_right (Nat.le_add_right _ _), Nat.add_sub_cancel_left, hd]

theorem first (h : t.Holds name (d :: ds)) : name < t.size ∧ t.node name = d := by
  obtain ⟨hlt, hd⟩ := Array.getElem?_eq_some_iff.mp (h 0 d rfl)
  refine ⟨hlt, ?_⟩
  rw [node, Array.getD, dif_pos (show name < t.nodes.size from hlt)]
  exact hd

theorem rest (h : t.Holds name (d :: ds)) : t.Holds (name + 1) ds :=
  right (show t.Holds name ([d] ++ ds) from h)

/-- The first of the nodes copied from one part. -/
theorem copied (h : t.Holds n (copyFrom bytes up lead n p)) : t.Copied bytes n p := by
  cases p with
  | node hd cs =>
    rw [copyFrom] at h
    obtain ⟨hlt, hn⟩ := h.first
    exact ⟨hlt, by rw [kind, hn]; rfl, by rw [text, hn]; rfl, by rw [hn], by rw [Tree.children, hn]; rfl, h.rest⟩

theorem parent_first (h : t.Holds n (copyFrom bytes up lead n p)) : t.parent n = up := by
  cases p with
  | node hd cs =>
    rw [copyFrom] at h
    rw [Tree.parent, h.first.2]

theorem leading_first (h : t.Holds n (copyFrom bytes up lead n p)) : (t.node n).leading = lead := by
  cases p with
  | node hd cs =>
    rw [copyFrom] at h
    rw [h.first.2]

theorem firstOfAll {c : Outline} (h : t.Holds name (copyAll bytes parent previous name (c :: cs))) :
    t.Holds name (copyFrom bytes (some parent) (textAt bytes previous c.head.start) name c) := by
  rw [copyAll] at h
  exact h.left

theorem restOfAll {c : Outline} (h : t.Holds name (copyAll bytes parent previous name (c :: cs))) :
    t.Holds (name + c.size) (copyAll bytes parent c.head.stop (name + c.size) cs) := by
  rw [copyAll] at h
  have := h.right
  rwa [length_copyFrom] at this

end Holds

mutual

/-- Each part is copied as a whole. -/
theorem holds_part : (o : Outline) → ∀ {name : Nat} {up lead i p}, t.Holds name (copyFrom bytes up lead name o) →
    o.parts[i]? = some p → ∃ up lead, t.Holds (name + i) (copyFrom bytes up lead (name + i) p)
  | .node h cs, name, up, lead, i, p, hold, hp => by
    rw [parts] at hp
    cases i with
    | zero =>
      obtain rfl : .node h cs = p := by simpa using hp
      exact ⟨up, lead, hold⟩
    | succ i =>
      rw [copyFrom] at hold
      have := holds_partsAll cs hold.rest (by simpa using hp)
      rwa [Nat.add_assoc, Nat.add_comm 1 i] at this

theorem holds_partsAll : (cs : List Outline) → ∀ {name : Nat} {parent previous i p},
    t.Holds name (copyAll bytes parent previous name cs) → (partsAll cs)[i]? = some p →
      ∃ up lead, t.Holds (name + i) (copyFrom bytes up lead (name + i) p)
  | [], _, _, _, _, _, _, hp => by simp [partsAll] at hp
  | c :: cs, name, parent, previous, i, p, hold, hp => by
    rw [partsAll] at hp
    by_cases hi : i < c.parts.length
    · rw [List.getElem?_append_left hi] at hp
      exact holds_part c hold.firstOfAll hp
    · rw [List.getElem?_append_right (not_lt.mp hi)] at hp
      have := holds_partsAll cs hold.restOfAll hp
      rw [length_parts] at this hi
      rwa [Nat.add_assoc, Nat.add_sub_cancel' (not_lt.mp hi)] at this

end

mutual

/-- Below the first node each node is a child of its parent. -/
theorem listed_below : (o : Outline) → ∀ {name m : Nat} {up lead}, t.Holds name (copyFrom bytes up lead name o) →
    name < m → m < name + o.size → ∃ q, t.parent m = some q ∧ m ∈ t.children q
  | .node h cs, name, m, up, lead, hold, hlow, hhigh => by
    have hc := hold.copied
    rw [copyFrom] at hold
    rw [Outline.size] at hhigh
    rcases listed_belowAll cs hold.rest hlow (by omega) with ⟨hp, hm⟩ | hq
    · refine ⟨name, hp, ?_⟩
      rw [hc.children]
      exact hm
    · exact hq

theorem listed_belowAll : (cs : List Outline) → ∀ {name m : Nat} {parent previous},
    t.Holds name (copyAll bytes parent previous name cs) → name ≤ m → m < name + sizeAll cs →
      (t.parent m = some parent ∧ m ∈ names name cs) ∨ ∃ q, t.parent m = some q ∧ m ∈ t.children q
  | [], name, m, _, _, _, hlow, hhigh => by rw [sizeAll] at hhigh; omega
  | c :: cs, name, m, parent, previous, hold, hlow, hhigh => by
    rw [sizeAll] at hhigh
    rcases Nat.lt_trichotomy m name with hlt | rfl | hgt
    · omega
    · exact .inl ⟨hold.firstOfAll.parent_first, List.mem_cons_self⟩
    · by_cases hm : m < name + c.size
      · exact .inr (listed_below c hold.firstOfAll hgt hm)
      · rcases listed_belowAll cs hold.restOfAll (not_lt.mp hm) (by omega) with ⟨hp, hin⟩ | hq
        · exact .inl ⟨hp, List.mem_cons_of_mem _ hin⟩
        · exact .inr hq

end

theorem parent_of_mem_names (h : t.Holds name (copyAll bytes parent previous name cs)) {m : NodeId}
    (hm : m ∈ names name cs) : t.parent m = some parent := by
  induction cs generalizing name previous with
  | nil => exact absurd hm List.not_mem_nil
  | cons c cs ih =>
    rcases List.mem_cons.mp hm with rfl | hm
    · exact h.firstOfAll.parent_first
    · exact ih h.restOfAll hm

/-! ## The whole tree -/

section OfOutline

variable {source : String}

/-- The store of a tree that was copied. -/
theorem nodes_ofOutline (ht : Tree.ofOutline o bytes path = .ok t) :
    t.nodes = (o.nodes bytes).toArray ∧ t.root = 0 := by
  rw [Tree.ofOutline] at ht
  split at ht
  · cases ht
  · obtain rfl := Except.ok.inj ht
    exact ⟨rfl, rfl⟩

/-- The root is the copy of the whole outline, with the end of the file behind it. -/
theorem root_ofOutline (ht : Tree.ofOutline o bytes path = .ok t) : t.Copied bytes 0 o ∧
    (t.node 0).leading = textAt bytes 0 o.head.start ∧ t.parent 0 = none ∧
    (t.node 0).trailing = (if o.children.isEmpty then "" else
      textAt bytes (lastStop o.head.start o.children) o.head.stop) ++ textAt bytes o.head.stop bytes.size := by
  have hnodes := (nodes_ofOutline ht).1
  have hold : t.Holds 0 (o.nodes bytes) := fun i d hd => by
    rw [hnodes, Nat.zero_add, List.getElem?_toArray, hd]
  cases o with
  | node h cs =>
    rw [Outline.nodes, copyFrom] at hold
    obtain ⟨hlt, hn⟩ := hold.first
    refine ⟨⟨hlt, ?_, ?_, ?_, ?_, hold.rest⟩, ?_, ?_, ?_⟩
    · rw [kind, hn]; rfl
    · rw [text, hn]; rfl
    · rw [hn]
    · rw [Tree.children, hn]; rfl
    · rw [hn]
    · rw [Tree.parent, hn]
    · rw [hn]; rfl

theorem size_ofOutline (ht : Tree.ofOutline o bytes path = .ok t) : t.size = o.size := by
  rw [Tree.size, (nodes_ofOutline ht).1, List.size_toArray, ← length_copyFrom bytes o none (textAt bytes 0 o.head.start) 0]
  cases o with
  | node h cs => rw [Outline.nodes, copyFrom, List.length_cons, List.length_cons]

/-- A part below the root is copied as a whole. -/
theorem holds_ofOutline (ht : Tree.ofOutline o bytes path = .ok t) (hp : o.parts[n]? = some p) (hn : n ≠ 0) :
    ∃ up lead, t.Holds n (copyFrom bytes up lead n p) := by
  have hbelow := (root_ofOutline ht).1.below
  cases o with
  | node h cs =>
    cases n with
    | zero => exact absurd rfl hn
    | succ n =>
      have := holds_partsAll cs hbelow (by simpa [parts] using hp)
      rwa [Nat.zero_add, Nat.add_comm 1 n] at this

theorem copied (ht : Tree.ofOutline o bytes path = .ok t) (hp : o.parts[n]? = some p) : t.Copied bytes n p := by
  by_cases hn : n = 0
  · subst hn
    cases o with
    | node h cs =>
      obtain rfl : .node h cs = p := by simpa [parts] using hp
      exact (root_ofOutline ht).1
  · obtain ⟨up, lead, hold⟩ := holds_ofOutline ht hp hn
    exact hold.copied

/-- Each node is the copy of a part. -/
theorem exists_copied (ht : Tree.ofOutline o bytes path = .ok t) (hn : n < t.size) :
    ∃ p, o.parts[n]? = some p ∧ t.Copied bytes n p := by
  rw [size_ofOutline ht, ← length_parts] at hn
  exact ⟨_, List.getElem?_eq_getElem hn, copied ht (List.getElem?_eq_getElem hn)⟩

theorem consistent_ofOutline (ht : Tree.ofOutline o bytes path = .ok t) : t.Consistent := by
  obtain ⟨hroot, _, hup, _⟩ := root_ofOutline ht
  have hzero := (nodes_ofOutline ht).2
  have down : ∀ p c, c ∈ t.children p → t.parent c = some p := fun p c hc => by
    obtain ⟨_, _, hcopied⟩ := exists_copied ht (lt_size_of_child hc)
    rw [hcopied.children] at hc
    exact parent_of_mem_names hcopied.below hc
  have up : ∀ p c : Nat, t.parent c = some p → c ∈ t.children p := fun p c hp => by
    have hlt := size_ofOutline ht ▸ lt_size_of_parent hp
    have hne : c ≠ 0 := fun h => by rw [h, hup] at hp; cases hp
    have hlist : ∃ q, t.parent c = some q ∧ c ∈ t.children q := by
      cases o with
      | node h cs =>
        rw [Outline.size] at hlt
        rcases listed_belowAll cs hroot.below (m := c) (by omega) (by omega) with ⟨hq, hc⟩ | hq
        · exact ⟨0, hq, by rw [hroot.children]; exact hc⟩
        · exact hq
    obtain ⟨q, hq, hc⟩ := hlist
    obtain rfl := Option.some.inj (hp.symm.trans hq)
    exact hc
  refine ⟨fun p c => ⟨down p c, up p c⟩, fun p => ?_, by rw [hzero, hup], ?_, fun n hn => ?_⟩
  · by_cases hp : p < t.size
    · obtain ⟨_, _, hcopied⟩ := exists_copied ht hp
      rw [hcopied.children]
      exact names_nodup _ _
    · have : t.children p = [] := by
        rw [Tree.children, Tree.node, Array.getD, dif_neg (show ¬ p < t.nodes.size from hp)]
        rfl
      rw [this]
      exact List.nodup_nil
  · rw [hzero, hroot.removed]
  · by_cases hlt : n < t.size
    · obtain ⟨_, _, hcopied⟩ := exists_copied ht hlt
      rw [hcopied.removed] at hn
      cases hn
    · rw [Tree.parent, Tree.node, Array.getD, dif_neg (show ¬ n < t.nodes.size from hlt)]
      rfl

/-! ## What stands before a node -/

theorem leading_names (h : t.Holds name (copyAll bytes parent previous name cs)) {as bs : List NodeId}
    {y s : Nat} (hc : names name cs = as ++ y :: s :: bs) : ∃ i j p q, (∃ before behind, cs = before ++ p :: q :: behind) ∧
      (partsAll cs)[i]? = some p ∧ (partsAll cs)[j]? = some q ∧ y = name + i ∧ s = name + j ∧
        (t.node s).leading = textAt bytes p.head.stop q.head.start := by
  induction cs generalizing name previous as with
  | nil => simp [names] at hc
  | cons c cs ih =>
    have hlater : ∀ {i : Nat} {p : Outline}, (partsAll cs)[i]? = some p →
        (partsAll (c :: cs))[c.size + i]? = some p := by
      intro i p hp
      rw [partsAll, List.getElem?_append_right (by rw [length_parts]; omega), length_parts,
        Nat.add_sub_cancel_left, hp]
    cases as with
    | cons a as =>
      obtain ⟨rfl, hrest⟩ := List.cons.inj hc
      obtain ⟨i, j, p, q, ⟨before, behind, hcs⟩, hp, hq, rfl, rfl, hlead⟩ := ih h.restOfAll hrest
      exact ⟨_, _, p, q, ⟨c :: before, behind, by rw [hcs]; rfl⟩, hlater hp, hlater hq, by omega, by omega, hlead⟩
    | nil =>
      have hfirst : ∀ (e : Outline) es, (partsAll (e :: es))[0]? = some e := by
        intro e es
        rw [partsAll, List.getElem?_append_left (length_parts e ▸ size_pos e), getElem?_parts_zero]
      obtain ⟨rfl, hrest⟩ := List.cons.inj hc
      cases cs with
      | nil => simp [names] at hrest
      | cons e cs =>
        obtain ⟨rfl, _⟩ := List.cons.inj hrest
        exact ⟨0, c.size + 0, c, e, ⟨[], cs, rfl⟩, hfirst c _, hlater (hfirst e cs), rfl, rfl,
          h.restOfAll.firstOfAll.leading_first⟩

/-- Before a node stands what is between it and its previous sibling. -/
theorem leading_copied (ht : Tree.ofOutline o bytes path = .ok t) {r y s : Nat} {as bs : List NodeId}
    (hc : t.children r = as ++ y :: s :: bs) : ∃ p q, o.parts[y]? = some p ∧ o.parts[s]? = some q ∧
      (∃ up ∈ o.parts, ∃ before behind, up.children = before ++ p :: q :: behind) ∧
        (t.node s).leading = textAt bytes p.head.stop q.head.start := by
  have hr : r < t.size := lt_size_of_child (c := y) (by rw [hc]; simp)
  obtain ⟨p, hp, hcopied⟩ := exists_copied ht hr
  rw [hcopied.children] at hc
  obtain ⟨i, j, a, b, hsiblings, ha, hb, rfl, rfl, hlead⟩ := leading_names hcopied.below hc
  have hparts : ∀ {k : Nat} {a : Outline}, (partsAll p.children)[k]? = some a → o.parts[r + 1 + k]? = some a := by
    intro k a ha
    rw [Nat.add_assoc, Nat.add_comm 1 k]
    refine getElem?_parts o hp ?_
    cases p with
    | node h cs => rwa [parts, List.getElem?_cons_succ]
  exact ⟨a, b, hparts ha, hparts hb, ⟨p, List.mem_of_getElem? hp, hsiblings⟩, hlead⟩

end OfOutline

end DeadCode.Tree
