import DeadCode.Proofs.Print.Slices

/-!
Outlines that fit a source text. `Fits` is all that is assumed of a parser: the ranges of children are in order,
apart and inside that of their parent, every offset is a boundary of characters, and comments have no children.
It holds of each part of an outline that fits (`Fits.part`), and all that lies below a node lies in its range
(`Fits.within`).
-/

namespace DeadCode.Outline

mutual

/-- The nodes of an outline, each with all that is below it, in pre-order. -/
def parts : Outline → List Outline
  | node h cs => node h cs :: partsAll cs

def partsAll : List Outline → List Outline
  | [] => []
  | c :: cs => c.parts ++ partsAll cs

end

/-- The ranges of a child list are in order and apart, between `start` and `stop`. -/
def InOrder (start stop : Nat) : List Outline → Prop
  | [] => start ≤ stop
  | c :: cs => start ≤ c.head.start ∧ c.head.start ≤ c.head.stop ∧ InOrder c.head.stop stop cs

instance InOrder.decide (start stop : Nat) : (cs : List Outline) → Decidable (InOrder start stop cs)
  | [] => inferInstanceAs (Decidable (start ≤ stop))
  | c :: cs =>
    have := InOrder.decide c.head.stop stop cs
    inferInstanceAs (Decidable (start ≤ c.head.start ∧ c.head.start ≤ c.head.stop ∧ InOrder c.head.stop stop cs))

structure Fits (o : Outline) (source : String) : Prop where
  inOrder : ∀ p ∈ o.parts, InOrder p.head.start p.head.stop p.children
  boundary : ∀ p ∈ o.parts, Boundary source p.head.start ∧ Boundary source p.head.stop
  comment_leaf : ∀ p ∈ o.parts, p.head.kind = .comment → p.children.isEmpty = true

theorem fits_iff {o : Outline} {source : String} : o.Fits source ↔
    (∀ p ∈ o.parts, InOrder p.head.start p.head.stop p.children) ∧
      (∀ p ∈ o.parts, Boundary source p.head.start ∧ Boundary source p.head.stop) ∧
        ∀ p ∈ o.parts, p.head.kind = .comment → p.children.isEmpty = true :=
  ⟨fun h => ⟨h.inOrder, h.boundary, h.comment_leaf⟩, fun h => ⟨h.1, h.2.1, h.2.2⟩⟩

instance (o : Outline) (source : String) : Decidable (o.Fits source) := decidable_of_iff' _ fits_iff

variable {o p c : Outline} {cs : List Outline} {source : String} {start stop : Nat}

theorem mem_partsAll : p ∈ partsAll cs ↔ ∃ c ∈ cs, p ∈ c.parts := by
  induction cs with
  | nil => simp [partsAll]
  | cons c cs ih => simp [partsAll, ih]

theorem mem_parts : p ∈ o.parts ↔ p = o ∨ ∃ c ∈ o.children, p ∈ c.parts := by
  cases o with
  | node h cs => rw [parts, List.mem_cons, mem_partsAll, children]

theorem mem_parts_self : o ∈ o.parts := mem_parts.mpr (.inl rfl)

theorem mem_parts_child (hc : c ∈ o.children) : c ∈ o.parts := mem_parts.mpr (.inr ⟨c, hc, mem_parts_self⟩)

mutual

theorem map_head_parts : (o : Outline) → o.parts.map head = o.heads
  | node h cs => by rw [parts, heads, List.map_cons, map_head_partsAll cs, head]

theorem map_head_partsAll : (cs : List Outline) → (partsAll cs).map head = headsAll cs
  | [] => rfl
  | c :: cs => by rw [partsAll, headsAll, List.map_append, map_head_parts c, map_head_partsAll cs]

end

theorem getElem?_heads {n : Nat} (hp : o.parts[n]? = some p) : o.heads[n]? = some p.head := by
  rw [← map_head_parts, List.getElem?_map, hp]
  rfl

mutual

theorem length_parts : (o : Outline) → o.parts.length = o.size
  | node h cs => by rw [parts, size, List.length_cons, length_partsAll cs, Nat.add_comm]

theorem length_partsAll : (cs : List Outline) → (partsAll cs).length = sizeAll cs
  | [] => rfl
  | c :: cs => by rw [partsAll, sizeAll, List.length_append, length_parts c, length_partsAll cs]

end

mutual

/-- Parts of a part are parts. -/
theorem parts_subset : (o : Outline) → ∀ p ∈ o.parts, ∀ q ∈ p.parts, q ∈ o.parts
  | node h cs, p, hp, q, hq => by
    rw [parts, List.mem_cons] at hp
    rcases hp with rfl | hp
    · exact hq
    · exact List.mem_cons_of_mem _ (partsAll_subset cs p hp q hq)

theorem partsAll_subset : (cs : List Outline) → ∀ p ∈ partsAll cs, ∀ q ∈ p.parts, q ∈ partsAll cs
  | [], p, hp, _, _ => absurd hp List.not_mem_nil
  | c :: cs, p, hp, q, hq => by
    rw [partsAll, List.mem_append] at hp ⊢
    exact hp.imp (parts_subset c p · q hq) (partsAll_subset cs p · q hq)

end

theorem getElem?_parts_zero (o : Outline) : o.parts[0]? = some o := by
  cases o with
  | node h cs => rfl

theorem size_pos (o : Outline) : 0 < o.size := by
  cases o with
  | node h cs => rw [size]; omega

mutual

/-- The parts of a part follow it in pre-order. -/
theorem getElem?_parts : (o : Outline) → ∀ {i j : Nat} {p q}, o.parts[i]? = some p → p.parts[j]? = some q →
    o.parts[i + j]? = some q
  | node h cs, i, j, p, q, hp, hq => by
    cases i with
    | zero =>
      rw [getElem?_parts_zero] at hp
      obtain rfl := Option.some.inj hp
      rwa [Nat.zero_add]
    | succ i =>
      rw [parts, List.getElem?_cons_succ] at hp
      rw [parts, Nat.add_right_comm, List.getElem?_cons_succ]
      exact getElem?_partsAll cs hp hq

theorem getElem?_partsAll : (cs : List Outline) → ∀ {i j : Nat} {p q}, (partsAll cs)[i]? = some p →
    p.parts[j]? = some q → (partsAll cs)[i + j]? = some q
  | [], _, _, _, _, hp, _ => by simp [partsAll] at hp
  | c :: cs, i, j, p, q, hp, hq => by
    rw [partsAll] at hp ⊢
    by_cases hi : i < c.parts.length
    · rw [List.getElem?_append_left hi] at hp
      have hc := getElem?_parts c hp hq
      rw [List.getElem?_append_left (List.getElem?_eq_some_iff.mp hc).1, hc]
    · rw [List.getElem?_append_right (not_lt.mp hi)] at hp
      rw [List.getElem?_append_right (by omega), ← getElem?_partsAll cs hp hq]
      congr 1
      omega

end

theorem sizeAll_ge (hc : c ∈ cs) : c.size ≤ sizeAll cs := by
  induction cs with
  | nil => exact absurd hc List.not_mem_nil
  | cons d cs ih =>
    rw [sizeAll]
    rcases List.mem_cons.mp hc with rfl | hc
    · omega
    · have := ih hc
      omega

theorem size_lt_of_child (hc : c ∈ o.children) : c.size < o.size := by
  cases o with
  | node h cs =>
    have : c.size ≤ sizeAll cs := sizeAll_ge hc
    rw [size]
    omega

/-- A part is no larger than the whole. -/
theorem size_le_of_part (hp : p ∈ o.parts) : p.size ≤ o.size := by
  obtain ⟨i, hi⟩ := List.mem_iff_getElem?.mp hp
  have hlast : p.parts[p.size - 1]? ≠ none := by
    have := size_pos p
    rw [ne_eq, List.getElem?_eq_none_iff, length_parts]
    omega
  obtain ⟨q, hq⟩ := Option.ne_none_iff_exists'.mp hlast
  have := (List.getElem?_eq_some_iff.mp (getElem?_parts o hi hq)).1
  rw [length_parts] at this
  omega

/-! ## Names of the members of a child list -/

theorem le_of_mem_names {first m : Nat} (h : m ∈ names first cs) : first ≤ m := by
  induction cs generalizing first with
  | nil => exact absurd h List.not_mem_nil
  | cons c cs ih =>
    rcases List.mem_cons.mp h with rfl | h
    · exact le_rfl
    · have := ih h
      omega

theorem names_nodup (first : Nat) (cs : List Outline) : (names first cs).Nodup := by
  induction cs generalizing first with
  | nil => exact List.nodup_nil
  | cons c cs ih =>
    refine List.nodup_cons.mpr ⟨fun h => ?_, ih _⟩
    have := le_of_mem_names h
    have := size_pos c
    omega

mutual

theorem length_copyFrom (bytes : ByteArray) : (o : Outline) → ∀ up lead name,
    (copyFrom bytes up lead name o).length = o.size
  | node h cs, up, lead, name => by
    rw [copyFrom, List.length_cons, length_copyAll bytes cs, size, Nat.add_comm]

theorem length_copyAll (bytes : ByteArray) : (cs : List Outline) → ∀ parent previous name,
    (copyAll bytes parent previous name cs).length = sizeAll cs
  | [], _, _, _ => rfl
  | c :: cs, parent, previous, name => by
    rw [copyAll, List.length_append, length_copyFrom bytes c, length_copyAll bytes cs, sizeAll]

end

/-! ## Ranges -/

theorem InOrder.le (h : InOrder start stop cs) : start ≤ stop := by
  induction cs generalizing start with
  | nil => exact h
  | cons c cs ih => exact h.1.trans (h.2.1.trans (ih h.2.2))

theorem InOrder.child (h : InOrder start stop cs) (hc : c ∈ cs) :
    start ≤ c.head.start ∧ c.head.start ≤ c.head.stop ∧ c.head.stop ≤ stop := by
  induction cs generalizing start with
  | nil => exact absurd hc List.not_mem_nil
  | cons d cs ih =>
    obtain ⟨hstart, hd, hrest⟩ := h
    rcases List.mem_cons.mp hc with rfl | hc
    · exact ⟨hstart, hd, hrest.le⟩
    · obtain ⟨h₁, h₂, h₃⟩ := ih hrest hc
      exact ⟨hstart.trans (hd.trans h₁), h₂, h₃⟩

theorem InOrder.neighbours {before behind : List Outline} (h : InOrder start stop (before ++ p :: c :: behind)) :
    p.head.stop ≤ c.head.start := by
  induction before generalizing start with
  | nil => exact h.2.2.1
  | cons d before ih => exact ih h.2.2

namespace Fits

theorem part (h : o.Fits source) (hp : p ∈ o.parts) : p.Fits source where
  inOrder q hq := h.inOrder q (parts_subset o p hp q hq)
  boundary q hq := h.boundary q (parts_subset o p hp q hq)
  comment_leaf q hq := h.comment_leaf q (parts_subset o p hp q hq)

theorem child (h : o.Fits source) (hc : c ∈ o.children) : c.Fits source := h.part (mem_parts_child hc)

theorem start_boundary (h : o.Fits source) : Boundary source o.head.start := (h.boundary o mem_parts_self).1

theorem stop_boundary (h : o.Fits source) : Boundary source o.head.stop := (h.boundary o mem_parts_self).2

theorem children_inOrder (h : o.Fits source) : InOrder o.head.start o.head.stop o.children :=
  h.inOrder o mem_parts_self

theorem start_le_stop (h : o.Fits source) : o.head.start ≤ o.head.stop := h.children_inOrder.le

end Fits

mutual

theorem within : (o : Outline) → o.Fits source → ∀ p ∈ o.parts,
    o.head.start ≤ p.head.start ∧ p.head.stop ≤ o.head.stop
  | node h cs, ho, p, hp => by
    rw [parts, List.mem_cons] at hp
    rcases hp with rfl | hp
    · exact ⟨le_rfl, le_rfl⟩
    · have hcs : ∀ c ∈ cs, c.Fits source := fun c hc => ho.child hc
      exact withinAll cs hcs ho.children_inOrder p hp

theorem withinAll : (cs : List Outline) → ∀ {start stop : Nat}, (∀ c ∈ cs, c.Fits source) →
    InOrder start stop cs → ∀ p ∈ partsAll cs, start ≤ p.head.start ∧ p.head.stop ≤ stop
  | [], _, _, _, _, p, hp => absurd hp List.not_mem_nil
  | c :: cs, _, _, hcs, hin, p, hp => by
    rw [partsAll, List.mem_append] at hp
    have hc := hin.child List.mem_cons_self
    rcases hp with hp | hp
    · have := within c (hcs c List.mem_cons_self) p hp
      exact ⟨hc.1.trans this.1, this.2.trans hc.2.2⟩
    · have := withinAll cs (fun d hd => hcs d (List.mem_cons_of_mem c hd)) hin.2.2 p hp
      exact ⟨hc.1.trans (hc.2.1.trans this.1), this.2⟩

end

end DeadCode.Outline
