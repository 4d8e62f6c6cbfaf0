import DeadCode.Proofs.Print.Copied

/-!
Copying and printing are inverse. From an outline that fits the source the copy succeeds (`ofOutline_eq_ok`).
The copy of a part prints the stretch of the part, with comments dropped or kept (`print_copy`), so the whole
tree prints the source, each comment replaced by its stub (`ofOutline_prints_back`).
-/

namespace DeadCode

open Outline

namespace Outline

/-- What stands for a comment when comments are dropped. -/
def stub (bytes : ByteArray) (h : Head) : String :=
  if Tree.isBlockComment (textAt bytes h.start h.stop) then " " else ""

/-- The source from `start` to `stop`, each of the given nodes replaced by its stub. -/
def stubbed (bytes : ByteArray) (start stop : Nat) : List Head → String
  | [] => textAt bytes start stop
  | h :: hs => textAt bytes start h.start ++ stub bytes h ++ stubbed bytes h.stop stop hs

def comments (hs : List Head) : List Head := hs.filter fun h => h.kind = .comment

/-- The nodes that printing replaces. -/
def replaced : Comments → List Head → List Head
  | .kept, _ => []
  | .dropped, hs => comments hs

end Outline

variable {source : String} {o : Outline} {cs : List Outline} {h : Head} {hs : List Head} {t : Tree} {m : Comments}
  {path : Option String}

/-! ## Every text can be read -/

/-- A range between two boundaries. -/
def Outline.Readable (source : String) (r : Nat × Nat) : Prop :=
  Boundary source r.1 ∧ Boundary source r.2 ∧ r.1 ≤ r.2

theorem readable_ownRange (ho : o.Fits source) : ∀ r ∈ o.ownRange, Readable source r := by
  cases o with
  | node h cs =>
    cases cs with
    | nil =>
      intro r hr
      obtain rfl := List.mem_singleton.mp hr
      exact ⟨ho.start_boundary, ho.stop_boundary, ho.start_le_stop⟩
    | cons c cs => exact fun r hr => absurd hr List.not_mem_nil

theorem readable_listRanges {previous stop : Nat} (hcs : ∀ c ∈ cs, c.Fits source) (hin : InOrder previous stop cs)
    (hprevious : Boundary source previous) (hstop : Boundary source stop) :
    ∀ r ∈ listRanges previous stop cs, Readable source r := by
  induction cs generalizing previous with
  | nil =>
    intro r hr
    obtain rfl := List.mem_singleton.mp hr
    exact ⟨hprevious, hstop, hin⟩
  | cons c cs ih =>
    intro r hr
    have hc := hcs c List.mem_cons_self
    rw [listRanges, List.mem_append, List.mem_cons] at hr
    rcases hr with hr | rfl | hr
    · exact readable_ownRange hc r hr
    · exact ⟨hprevious, hc.start_boundary, hin.1⟩
    · exact ih (fun d hd => hcs d (List.mem_cons_of_mem c hd)) hin.2.2 hc.stop_boundary r hr

mutual

theorem readable_innerRanges : (o : Outline) → o.Fits source → ∀ r ∈ o.innerRanges, Readable source r
  | .node h [], _, r, hr => absurd hr List.not_mem_nil
  | .node h (c :: cs), ho, r, hr => by
    have hc : c.Fits source := ho.child List.mem_cons_self
    have hcs : ∀ d ∈ cs, d.Fits source := fun d hd => ho.child (List.mem_cons_of_mem c hd)
    rw [innerRanges, List.mem_append, List.mem_append] at hr
    rcases hr with hr | hr | hr
    · exact readable_listRanges (fun d hd => ho.child hd) ho.children_inOrder ho.start_boundary ho.stop_boundary r hr
    · exact readable_innerRangesAll cs hcs r hr
    · exact readable_innerRanges c hc r hr

theorem readable_innerRangesAll : (cs : List Outline) → (∀ c ∈ cs, c.Fits source) →
    ∀ r ∈ innerRangesAll cs, Readable source r
  | [], _, r, hr => absurd hr List.not_mem_nil
  | c :: cs, hcs, r, hr => by
    rw [innerRangesAll, List.mem_append] at hr
    rcases hr with hr | hr
    · exact readable_innerRangesAll cs (fun d hd => hcs d (List.mem_cons_of_mem c hd)) r hr
    · exact readable_innerRanges c (hcs c List.mem_cons_self) r hr

end

theorem readable_readings (ho : o.Fits source) : ∀ r ∈ o.readings source.toUTF8, Readable source r := by
  intro r hr
  simp only [readings, List.mem_append, List.mem_cons, List.not_mem_nil, or_false] at hr
  rcases hr with (hr | rfl | hr) | rfl
  · exact readable_ownRange ho r hr
  · exact ⟨boundary_zero source, ho.start_boundary, Nat.zero_le _⟩
  · exact readable_innerRanges o ho r hr
  · exact ⟨ho.stop_boundary, boundary_size source, ho.stop_boundary.le_size⟩

/-- A parse that fits its source can be copied. -/
theorem ofOutline_eq_ok (ho : o.Fits source) (path : Option String) :
    Tree.ofOutline o source.toUTF8 path = .ok { nodes := (o.nodes source.toUTF8).toArray, path } := by
  rw [Tree.ofOutline]
  split
  · rename_i fault hfault
    obtain ⟨r, hr, hf⟩ := List.exists_of_findSome?_eq_some hfault
    obtain ⟨hi, hj, hij⟩ := readable_readings ho r hr
    rw [show r = (r.1, r.2) from rfl, decode_slice hi hj hij] at hf
    cases hf
  · rfl

/-! ## Stubs -/

theorem stubbed_append (hs hs' : List Head) {a b c : Nat} (ha : Boundary source a) (hb : Boundary source b)
    (hc : Boundary source c) (hab : a ≤ b) (hbc : b ≤ c) (hs_le : ∀ h ∈ hs, h.stop ≤ b ∧ Boundary source h.stop)
    (hs'_ge : ∀ h ∈ hs', b ≤ h.start ∧ Boundary source h.start) :
    stubbed source.toUTF8 a b hs ++ stubbed source.toUTF8 b c hs' = stubbed source.toUTF8 a c (hs ++ hs') := by
  induction hs generalizing a with
  | nil =>
    cases hs' with
    | nil => exact textAt_append ha hb hc hab hbc
    | cons h hs' =>
      obtain ⟨hbh, hh⟩ := hs'_ge h List.mem_cons_self
      rw [List.nil_append, stubbed, stubbed, stubbed, ← String.append_assoc, ← String.append_assoc,
        textAt_append ha hb hh hab hbh]
  | cons h hs ih =>
    obtain ⟨hhb, hh⟩ := hs_le h List.mem_cons_self
    rw [List.cons_append, stubbed, stubbed, String.append_assoc, String.append_assoc, String.append_assoc,
      ih hh hhb fun g hg => hs_le g (List.mem_cons_of_mem h hg)]

theorem replaced_append (m : Comments) (hs hs' : List Head) :
    replaced m (hs ++ hs') = replaced m hs ++ replaced m hs' := by
  cases m with
  | kept => rfl
  | dropped => exact List.filter_append ..

theorem mem_of_mem_replaced (hh : h ∈ replaced m hs) : h ∈ hs := by
  cases m with
  | kept => exact absurd hh List.not_mem_nil
  | dropped => exact (List.mem_filter.mp hh).1

theorem replaced_within (ho : o.Fits source) (hh : h ∈ replaced m o.heads) :
    (o.head.start ≤ h.start ∧ Boundary source h.start) ∧ h.stop ≤ o.head.stop ∧ Boundary source h.stop := by
  have hmem := mem_of_mem_replaced hh
  rw [← map_head_parts] at hmem
  obtain ⟨p, hp, rfl⟩ := List.mem_map.mp hmem
  obtain ⟨hstart, hstop⟩ := within o ho p hp
  exact ⟨⟨hstart, (ho.boundary p hp).1⟩, hstop, (ho.boundary p hp).2⟩

theorem replaced_withinAll {start stop : Nat} (hcs : ∀ c ∈ cs, c.Fits source) (hin : InOrder start stop cs)
    (hh : h ∈ replaced m (headsAll cs)) : start ≤ h.start ∧ Boundary source h.start := by
  have hmem := mem_of_mem_replaced hh
  rw [← map_head_partsAll] at hmem
  obtain ⟨p, hp, rfl⟩ := List.mem_map.mp hmem
  obtain ⟨c, hc, hpc⟩ := mem_partsAll.mp hp
  exact ⟨(withinAll cs hcs hin p hp).1, ((hcs c hc).boundary p hpc).1⟩

theorem lastStop_cons (c : Outline) (cs : List Outline) (start : Nat) :
    lastStop start (c :: cs) = lastStop c.head.stop cs := by
  induction cs generalizing c start with
  | nil => rfl
  | cons d cs ih => rw [lastStop, ih, ih]; simp

/-! ## Printing a copy -/

theorem Tree.Holds.trailing_first {bytes : ByteArray} {n : Nat} {up : Option NodeId} {lead : String}
    (hold : t.Holds n (copyFrom bytes up lead n o)) : (t.node n).trailing =
      if o.children.isEmpty then "" else textAt bytes (lastStop o.head.start o.children) o.head.stop := by
  cases o with
  | node h cs =>
    rw [copyFrom] at hold
    rw [hold.first.2]
    rfl

/-- The text of a child list and of what comes behind it, if each child prints its stretch. -/
theorem join_copyAll {fuel stop previous name : Nat} {parent : NodeId}
    (hold : t.Holds name (copyAll source.toUTF8 parent previous name cs)) (hcs : ∀ c ∈ cs, c.Fits source)
    (hin : InOrder previous stop cs) (hprevious : Boundary source previous) (hstop : Boundary source stop)
    (hprint : ∀ c ∈ cs, ∀ n up lead, t.Holds n (copyFrom source.toUTF8 up lead n c) →
      t.print m fuel n = stubbed source.toUTF8 c.head.start c.head.stop (replaced m c.heads)) :
    String.join ((names name cs).map fun c => (t.node c).leading ++ t.print m fuel c) ++
        textAt source.toUTF8 (lastStop previous cs) stop =
      stubbed source.toUTF8 previous stop (replaced m (headsAll cs)) := by
  induction cs generalizing name previous with
  | nil =>
    have hnone : replaced m (headsAll []) = [] := by cases m <;> rfl
    rw [hnone]
    exact String.empty_append
  | cons c cs ih =>
    have hc := hcs c List.mem_cons_self
    have hfirst := hold.firstOfAll
    have hrest := ih hold.restOfAll (fun d hd => hcs d (List.mem_cons_of_mem c hd)) hin.2.2 hc.stop_boundary
      fun d hd => hprint d (List.mem_cons_of_mem c hd)
    have hchild : (t.node name).leading ++ t.print m fuel name =
        stubbed source.toUTF8 previous c.head.stop (replaced m c.heads) := by
      rw [hfirst.leading_first, hprint c List.mem_cons_self name _ _ hfirst]
      exact stubbed_append [] _ hprevious hc.start_boundary hc.stop_boundary hin.1 hin.2.1
        (fun g hg => absurd hg List.not_mem_nil) fun g hg => (replaced_within hc hg).1
    rw [names, List.map_cons, String.join_cons, lastStop_cons, String.append_assoc, hrest, hchild,
      headsAll, replaced_append]
    exact stubbed_append _ _ hprevious hc.stop_boundary hstop (hin.1.trans hin.2.1) hin.2.2.le
      (fun g hg => (replaced_within hc hg).2)
      fun g hg => replaced_withinAll (fun d hd => hcs d (List.mem_cons_of_mem c hd)) hin.2.2 hg

theorem replaced_of_not_comment {h : Head} (hmode : ¬ (m = .dropped ∧ h.kind = .comment)) (hs : List Head) :
    replaced m (h :: hs) = replaced m hs := by
  cases m with
  | kept => rfl
  | dropped =>
    have hk : h.kind ≠ .comment := fun hk => hmode ⟨rfl, hk⟩
    simp [replaced, comments, hk]

/-- A node that is no dropped comment prints its stretch if its children do; `tail` is the text behind it. -/
theorem print_node {fuel n : Nat} (tail : String) (hcopied : t.Copied source.toUTF8 n o) (ho : o.Fits source)
    (hmode : ¬ (m = .dropped ∧ o.head.kind = .comment))
    (htrailing : (t.node n).trailing = (if o.children.isEmpty then "" else
      textAt source.toUTF8 (lastStop o.head.start o.children) o.head.stop) ++ tail)
    (hprint : ∀ c ∈ o.children, ∀ n up lead, t.Holds n (copyFrom source.toUTF8 up lead n c) →
      t.print m fuel n = stubbed source.toUTF8 c.head.start c.head.stop (replaced m c.heads)) :
    t.print m (fuel + 1) n =
      stubbed source.toUTF8 o.head.start o.head.stop (replaced m o.heads) ++ tail := by
  have hkind : ¬ (m = .dropped ∧ (t.node n).kind = .comment) := fun hk => hmode ⟨hk.1, hcopied.kind ▸ hk.2⟩
  cases o with
  | node h cs =>
    have hchildren : (t.node n).children = names (n + 1) cs := hcopied.children
    have htext : (t.node n).text = if cs.isEmpty then textAt source.toUTF8 h.start h.stop else "" := hcopied.text
    have hmode : ¬ (m = .dropped ∧ h.kind = .comment) := hmode
    rw [heads, replaced_of_not_comment hmode]
    simp only [Tree.print, hkind, if_false, htrailing, hchildren, htext]
    cases cs with
    | nil =>
      have hnone : replaced m (headsAll []) = [] := by cases m <;> rfl
      simp [names, hnone, stubbed, Outline.children, head]
    | cons c cs =>
      have hjoin := join_copyAll hcopied.below (fun d hd => ho.child hd) ho.children_inOrder ho.start_boundary
        ho.stop_boundary hprint
      simp only [names, List.isEmpty_cons, Outline.children, head, if_false, Bool.false_eq_true] at hjoin ⊢
      rw [← String.append_assoc]
      exact congrArg (· ++ tail) hjoin

/-- The copy of a part prints its stretch, comments replaced as the mode says. -/
theorem print_copy (ho : o.Fits source) {fuel n : Nat} {up : Option NodeId} {lead : String}
    (hfuel : o.size ≤ fuel) (hold : t.Holds n (copyFrom source.toUTF8 up lead n o)) :
    t.print m fuel n = stubbed source.toUTF8 o.head.start o.head.stop (replaced m o.heads) := by
  induction fuel generalizing o n up lead with
  | zero =>
    have := size_pos o
    omega
  | succ fuel ih =>
    by_cases hmode : m = .dropped ∧ o.head.kind = .comment
    · have hleaf := ho.comment_leaf o mem_parts_self hmode.2
      obtain ⟨rfl, hk⟩ := hmode
      have hkind : (t.node n).kind = .comment := hold.copied.kind.trans hk
      have htext : (t.node n).text = textAt source.toUTF8 o.head.start o.head.stop := by
        have := hold.copied.text
        rwa [hleaf, if_pos rfl] at this
      have hheads : replaced .dropped o.heads = [o.head] := by
        cases o with
        | node h cs =>
          obtain rfl : cs = [] := List.isEmpty_iff.mp hleaf
          have hk : h.kind = .comment := hk
          simp [replaced, comments, heads, headsAll, head, hk]
      rw [hheads, stubbed, stubbed, textAt_self, textAt_self]
      simp [Tree.print, hkind, htext, stub]
    · have hsize : ∀ c ∈ o.children, c.size ≤ fuel := fun c hc => by
        have := size_lt_of_child hc
        omega
      rw [print_node "" hold.copied ho hmode (by rw [hold.trailing_first, String.append_empty])
        fun c hc n up lead hold => ih (ho.child hc) (hsize c hc) hold, String.append_empty]

/-- A parse of the source is copied, a node of the copy prints what the source has there, the root with all that
comes behind it, and the whole tree prints the source with each comment replaced by its stub. -/
theorem ofOutline_prints_back (ho : o.Fits source) (hroot : o.head.kind ≠ .comment) (path : Option String) :
    ∃ t, Tree.ofOutline o source.toUTF8 path = .ok t ∧ t.size = o.heads.length ∧
      (∀ n h, n ≠ t.root → o.heads[n]? = some h →
        Text.Utf8.decode (slice source.toUTF8 (h.start, h.stop)) = .ok (t.source n)) ∧
      Text.Utf8.decode (slice source.toUTF8 (o.head.start, source.toUTF8.size)) = .ok (t.source t.root) ∧
      t.render = stubbed source.toUTF8 0 source.toUTF8.size (comments o.heads) ∧
      (comments o.heads = [] → t.render = source) := by
  obtain ⟨t, ht⟩ : ∃ t, Tree.ofOutline o source.toUTF8 path = .ok t := ⟨_, ofOutline_eq_ok ho path⟩
  have hzero := (Tree.nodes_ofOutline ht).2
  have hsize := Tree.size_ofOutline ht
  obtain ⟨hcopied, hleading, _, htrailing⟩ := Tree.root_ofOutline ht
  have hstop := ho.stop_boundary.le_size
  have hprint : ∀ m, t.print m t.size 0 = stubbed source.toUTF8 o.head.start o.head.stop
      (replaced m o.heads) ++ textAt source.toUTF8 o.head.stop source.toUTF8.size := by
    intro m
    obtain ⟨fuel, hfuel⟩ : ∃ fuel, t.size = fuel + 1 := ⟨t.size - 1, by have := size_pos o; omega⟩
    rw [hfuel]
    refine print_node _ hcopied ho (fun hk => hroot hk.2) htrailing fun c hc n up lead hold => ?_
    have := size_lt_of_child hc
    exact print_copy (ho.child hc) (by omega) hold
  have hwhole : ∀ m, t.print m t.size 0 =
      stubbed source.toUTF8 o.head.start source.toUTF8.size (replaced m o.heads) := by
    intro m
    rw [hprint m]
    have := stubbed_append _ [] ho.start_boundary ho.stop_boundary (boundary_size source)
      ho.start_le_stop hstop (fun g hg => (replaced_within ho (m := m) hg).2)
      fun g hg => absurd hg List.not_mem_nil
    rwa [List.append_nil] at this
  have hrender : t.render = stubbed source.toUTF8 0 source.toUTF8.size (comments o.heads) := by
    rw [Tree.render, hzero, hleading, hwhole]
    exact stubbed_append [] _ (boundary_zero source) ho.start_boundary (boundary_size source) (Nat.zero_le _)
      (ho.start_le_stop.trans hstop) (fun g hg => absurd hg List.not_mem_nil)
      fun g hg => (replaced_within ho (m := .dropped) hg).1
  refine ⟨t, ht, ?_, fun n h hn hh => ?_, ?_, hrender, fun hnone => ?_⟩
  · rw [hsize, ← map_head_parts, List.length_map, length_parts]
  · rw [← map_head_parts, List.getElem?_map] at hh
    obtain ⟨p, hp, rfl⟩ := Option.map_eq_some_iff.mp hh
    have hmem := List.mem_of_getElem? hp
    have hp' := ho.part hmem
    obtain ⟨up, lead, hold⟩ := Tree.holds_ofOutline ht hp (hzero ▸ hn)
    rw [decode_slice hp'.start_boundary hp'.stop_boundary hp'.start_le_stop, Tree.source,
      print_copy (m := .kept) hp' (hsize ▸ size_le_of_part hmem) hold]
    rfl
  · rw [decode_slice ho.start_boundary (boundary_size source) (ho.start_le_stop.trans hstop), Tree.source, hzero,
      hwhole]
    rfl
  · rw [hrender, hnone, stubbed, textAt_all]

/-- A call with a comment of each sort, one behind blanks and one that holds a character of two bytes. -/
def commentedCall : Outline :=
  .node { kind := .program, start := 2, stop := 20 } [
    .node { kind := .comment, start := 2, stop := 7 } [],
    .node { kind := .expressionStatement, start := 8, stop := 20 } [
      .node { kind := .other "call_expression", start := 8, stop := 19 } [
        .node { kind := .identifier, start := 8, stop := 9 } [],
        .node { kind := .other "arguments", start := 9, stop := 19 } [
          .node { kind := .other "(", start := 9, stop := 10, named := false } [],
          .node { kind := .comment, start := 10, stop := 18 } [],
          .node { kind := .other ")", start := 18, stop := 19, named := false } []]],
      .node { kind := .other ";", start := 19, stop := 20, named := false } []]]

def commentedText : String := "  // ü\nf(/* é */);\n"

theorem ofOutline_prints_back_commentedCall : commentedCall.Fits commentedText ∧
    commentedCall.head.kind ≠ .comment ∧ ∃ t, Tree.ofOutline commentedCall commentedText.toUTF8 none = .ok t ∧
      Text.Utf8.decode (slice commentedText.toUTF8 (8, 20)) = .ok (t.source 2) ∧
      t.render = "  \nf( );\n" := by
  have hfits : commentedCall.Fits commentedText := by decide +kernel
  have hroot : commentedCall.head.kind ≠ .comment := by decide
  obtain ⟨t, ht, _, hsource, _, hrender, _⟩ := ofOutline_prints_back hfits hroot none
  have hzero := (Tree.nodes_ofOutline ht).2
  have hpart := hsource 2 { kind := .expressionStatement, start := 8, stop := 20 } (by rw [hzero]; decide) rfl
  refine ⟨hfits, hroot, t, ht, hpart, ?_⟩
  rw [hrender]
  decide +kernel

end DeadCode
