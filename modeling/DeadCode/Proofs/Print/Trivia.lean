import DeadCode.Proofs.Print.LineBreaks

/-!
What a fresh tree prints between its leaves. `Covers o source i ps cs k` says that the pieces `ps` stand for the stretch
of the source from `i` to `k`, gaps and leaves with their texts and each of the comments `cs` with its stub. The printed
tree covers its source (`covers_printed`). Main statement `trivia_left`: between two leaves the source is printed as it
is, comments replaced by their stubs, so a line break is lost exactly if it stood in a comment alone.
-/

namespace DeadCode

open Outline DeadCode.Tree

inductive Covers (o : Outline) (source : String) : Nat → List Piece → List Head → Nat → Prop
  | nil {i : Nat} : Boundary source i → Covers o source i [] [] i
  | gap {i j k : Nat} {ps : List Piece} {cs : List Head} : Boundary source i → i ≤ j → Covers o source j ps cs k →
      Covers o source i (.gap (textAt source.toUTF8 i j) :: ps) cs k
  | comment {h : Head} {k : Nat} {ps : List Piece} {cs : List Head} : Boundary source h.start → h.start ≤ h.stop →
      Covers o source h.stop ps cs k → Covers o source h.start (.gap (stub source.toUTF8 h) :: ps) (h :: cs) k
  | token {n : NodeId} {h : Head} {k : Nat} {ps : List Piece} {cs : List Head} : o.heads[n]? = some h →
      Boundary source h.start → h.start ≤ h.stop → Covers o source h.stop ps cs k →
      Covers o source h.start (.token n (textAt source.toUTF8 h.start h.stop) :: ps) cs k

variable {o p : Outline} {source : String} {i j k : Nat} {ps qs pre post : List Piece} {cs ds : List Head}
  {t : Tree} {path : Option String} {a b n : NodeId} {x z : String}

namespace Covers

theorem append (h : Covers o source i ps cs j) (h' : Covers o source j qs ds k) :
    Covers o source i (ps ++ qs) (cs ++ ds) k := by
  induction h with
  | nil _ => exact h'
  | gap hi hij _ ih => exact .gap hi hij (ih h')
  | comment hi hij _ ih => exact .comment hi hij (ih h')
  | token hn hi hij _ ih => exact .token hn hi hij (ih h')

theorem boundary_left (h : Covers o source i ps cs k) : Boundary source i := by
  cases h <;> assumption

theorem boundary_right (h : Covers o source i ps cs k) : Boundary source k := by
  induction h with
  | nil hi => exact hi
  | gap _ _ _ ih => exact ih
  | comment _ _ _ ih => exact ih
  | token _ _ _ _ ih => exact ih

theorem le (h : Covers o source i ps cs k) : i ≤ k := by
  induction h with
  | nil _ => exact le_rfl
  | gap _ hij _ ih => exact hij.trans ih
  | comment _ hij _ ih => exact hij.trans ih
  | token _ _ hij _ ih => exact hij.trans ih

/-- The comments lie in the stretch. -/
theorem within (h : Covers o source i ps cs k) :
    ∀ c ∈ cs, i ≤ c.start ∧ c.stop ≤ k ∧ Boundary source c.start := by
  have later : ∀ {i j k : Nat} {cs : List Head}, i ≤ j →
      (∀ c ∈ cs, j ≤ c.start ∧ c.stop ≤ k ∧ Boundary source c.start) → ∀ c ∈ cs, i ≤ c.start ∧ c.stop ≤ k ∧ Boundary source c.start :=
    fun hij h c hc => ⟨hij.trans (h c hc).1, (h c hc).2⟩
  induction h with
  | nil _ => exact fun c hc => absurd hc List.not_mem_nil
  | gap _ hij _ ih => exact later hij ih
  | comment hi hij hrest ih =>
    intro c hc
    rcases List.mem_cons.mp hc with rfl | hc
    · exact ⟨le_rfl, hrest.le, hi⟩
    · exact later hij ih c hc
  | token _ _ hij _ ih => exact later hij ih

/-- What stands before a leaf and behind it. -/
theorem at_token (h : Covers o source i (pre ++ .token a x :: post) cs k) : ∃ ha cs₁ cs₂, o.heads[a]? = some ha ∧
    x = textAt source.toUTF8 ha.start ha.stop ∧ ha.start ≤ ha.stop ∧ cs = cs₁ ++ cs₂ ∧
    Covers o source i pre cs₁ ha.start ∧ Covers o source ha.stop post cs₂ k := by
  generalize hps : pre ++ .token a x :: post = ps at h
  induction h generalizing pre with
  | nil _ => simp at hps
  | gap hi hij hrest ih =>
    cases pre with
    | nil => cases (List.cons.inj hps).1
    | cons q pre =>
      obtain ⟨rfl, hrow⟩ := List.cons.inj hps
      obtain ⟨ha, cs₁, cs₂, hhead, hx, hle, rfl, hpre, hpost⟩ := ih hrow
      exact ⟨ha, cs₁, cs₂, hhead, hx, hle, rfl, .gap hi hij hpre, hpost⟩
  | @comment c _ _ _ hi hij hrest ih =>
    cases pre with
    | nil => cases (List.cons.inj hps).1
    | cons q pre =>
      obtain ⟨rfl, hrow⟩ := List.cons.inj hps
      obtain ⟨ha, cs₁, cs₂, hhead, hx, hle, rfl, hpre, hpost⟩ := ih hrow
      exact ⟨ha, c :: cs₁, cs₂, hhead, hx, hle, rfl, .comment hi hij hpre, hpost⟩
  | token hn hi hij hrest ih =>
    cases pre with
    | nil =>
      obtain ⟨hp, rfl⟩ := List.cons.inj hps
      obtain ⟨rfl, rfl⟩ := Piece.token.inj hp
      exact ⟨_, [], _, hn, rfl, hij, rfl, .nil hi, hrest⟩
    | cons q pre =>
      obtain ⟨rfl, hrow⟩ := List.cons.inj hps
      obtain ⟨ha, cs₁, cs₂, hhead, hx, hle, rfl, hpre, hpost⟩ := ih hrow
      exact ⟨ha, cs₁, cs₂, hhead, hx, hle, rfl, .token hn hi hij hpre, hpost⟩

/-! ## A stretch without leaves -/

/-- It is spelled by the source with stubs for the comments. -/
theorem spell_eq (h : Covers o source i ps cs k) (hnone : tokens ps = []) :
    spell ps = stubbed source.toUTF8 i k cs := by
  induction h with
  | nil _ => exact (textAt_self _ _).symm
  | @gap i j k ps cs hi hij hrest ih =>
    rw [spell_cons, ih hnone, Piece.text]
    exact stubbed_append [] cs hi hrest.boundary_left hrest.boundary_right hij hrest.le
      (fun c hc => absurd hc List.not_mem_nil) fun c hc => ⟨(hrest.within c hc).1, (hrest.within c hc).2.2⟩
  | comment _ _ _ ih => rw [spell_cons, ih hnone, Piece.text, stubbed, textAt_self, String.empty_append]
  | token => exact absurd hnone (by rw [tokens_token]; exact List.cons_ne_nil _ _)

theorem breaksLine_stub (bytes : ByteArray) (h : Head) : breaksLine (stub bytes h) = false := by
  unfold stub
  split <;> rfl

/-- A line break of the stretch is printed, or stands in a comment. -/
theorem breaksLine_iff (h : Covers o source i ps cs k) (hnone : tokens ps = []) :
    breaksLine (textAt source.toUTF8 i k) ↔
      breaksLine (spell ps) ∨ ∃ c ∈ cs, breaksLine (textAt source.toUTF8 c.start c.stop) := by
  induction h with
  | nil _ =>
    rw [textAt_self]
    simp [breaksLine, spell]
  | @gap i j k ps cs hi hij hrest ih =>
    rw [← textAt_append hi hrest.boundary_left hrest.boundary_right hij hrest.le, breaksLine_append, spell_cons,
      breaksLine_append, Bool.or_eq_true, Bool.or_eq_true, ih hnone, Piece.text, or_assoc]
  | @comment c k ps cs hi hij hrest ih =>
    rw [← textAt_append hi hrest.boundary_left hrest.boundary_right hij hrest.le, breaksLine_append, spell_cons,
      breaksLine_append, Piece.text, breaksLine_stub, Bool.false_or, Bool.or_eq_true, ih hnone,
      List.exists_mem_cons_iff, or_left_comm]
  | token => exact absurd hnone (by rw [tokens_token]; exact List.cons_ne_nil _ _)

/-- If nothing is printed for the stretch, then it is empty, as long as a line comment does not end it. -/
theorem eq_of_spell_eq_empty (h : Covers o source i ps cs k) (hnone : tokens ps = [])
    (hline : ∀ c ∈ cs, isBlockComment (textAt source.toUTF8 c.start c.stop) = false → c.stop < k)
    (hempty : spell ps = "") : i = k := by
  induction h with
  | nil _ => rfl
  | @gap i j k ps cs hi hij hrest ih =>
    rw [spell_cons] at hempty
    obtain ⟨hgap, hempty⟩ := String.append_eq_empty_iff.mp hempty
    exact (eq_of_textAt_eq_empty hi hrest.boundary_left hij hgap).trans (ih hnone hline hempty)
  | @comment c k ps cs hi hij hrest ih =>
    rw [spell_cons] at hempty
    obtain ⟨hstub, hempty⟩ := String.append_eq_empty_iff.mp hempty
    have hstop := ih hnone (fun d hd => hline d (List.mem_cons_of_mem c hd)) hempty
    have hblock : isBlockComment (textAt source.toUTF8 c.start c.stop) = false := by
      by_contra hb
      rw [Piece.text, stub, if_pos (by simpa using hb)] at hstub
      exact absurd hstub (by decide)
    have := hline c List.mem_cons_self hblock
    omega
  | token => exact absurd hnone (by rw [tokens_token]; exact List.cons_ne_nil _ _)

end Covers

/-! ## The printed tree covers the source -/

/-- The parts of a child list stand in the outline under the names of its copies. -/
def Outline.Located (o : Outline) (name : Nat) (cs : List Outline) : Prop :=
  ∀ i q, (partsAll cs)[i]? = some q → o.parts[name + i]? = some q

namespace Outline.Located

variable {name : Nat} {c : Outline} {others : List Outline}

theorem first (h : o.Located name (c :: others)) : o.parts[name]? = some c := by
  apply h 0 c
  rw [partsAll, List.getElem?_append_left (length_parts c ▸ size_pos c), getElem?_parts_zero]

theorem rest (h : o.Located name (c :: others)) : o.Located (name + c.size) others := by
  intro i q hq
  rw [Nat.add_assoc]
  apply h
  rwa [partsAll, List.getElem?_append_right (by rw [length_parts]; omega), length_parts, Nat.add_sub_cancel_left]

theorem of_part (hp : o.parts[n]? = some p) : o.Located (n + 1) p.children := by
  intro i q hq
  rw [Nat.add_assoc, Nat.add_comm 1 i]
  apply getElem?_parts o hp
  cases p with
  | node h cs => rwa [parts, List.getElem?_cons_succ]

end Outline.Located

theorem InOrder.lastStop_le {start stop : Nat} {children : List Outline} (h : InOrder start stop children) :
    lastStop start children ≤ stop := by
  induction children generalizing start with
  | nil => exact h
  | cons c rest ih =>
    rw [lastStop_cons]
    exact ih h.2.2

/-- A child list covers its stretch up to the end of the last child if each child does. -/
theorem covers_children {fuel stop previous name : Nat} {parent : NodeId} {children : List Outline}
    (hold : t.Holds name (copyAll source.toUTF8 parent previous name children)) (hloc : o.Located name children)
    (hcs : ∀ c ∈ children, c.Fits source) (hin : InOrder previous stop children) (hprevious : Boundary source previous)
    (hcovers : ∀ c ∈ children, ∀ n up lead, t.Holds n (copyFrom source.toUTF8 up lead n c) → o.parts[n]? = some c →
      Covers o source c.head.start (t.pieces fuel n) (comments c.heads) c.head.stop) :
    Covers o source previous ((names name children).flatMap fun c => .gap (t.node c).leading :: t.pieces fuel c)
      (comments (headsAll children)) (lastStop previous children) := by
  induction children generalizing name previous with
  | nil => exact .nil hprevious
  | cons c rest ih =>
    have hc := hcs c List.mem_cons_self
    have hfirst := hold.firstOfAll
    have hchild := hcovers c List.mem_cons_self name _ _ hfirst hloc.first
    have hrest := ih hold.restOfAll hloc.rest (fun d hd => hcs d (List.mem_cons_of_mem c hd)) hin.2.2 hc.stop_boundary
      fun d hd => hcovers d (List.mem_cons_of_mem c hd)
    have hcomments : comments (headsAll (c :: rest)) = comments c.heads ++ comments (headsAll rest) := by
      rw [headsAll, comments, List.filter_append]
      rfl
    rw [names, List.flatMap_cons, lastStop_cons, hcomments, hfirst.leading_first]
    exact (Covers.gap hprevious hin.1 hchild).append hrest

/-- A node that is no comment covers its stretch, and what trails it the stretch behind, if its children do. -/
theorem covers_node {fuel stop : Nat} (hcopied : t.Copied source.toUTF8 n p) (hp : o.parts[n]? = some p)
    (hfits : p.Fits source) (hk : p.head.kind ≠ .comment) (hstop : Boundary source stop) (hle : p.head.stop ≤ stop)
    (htrailing : (t.node n).trailing = (if p.children.isEmpty then "" else
      textAt source.toUTF8 (lastStop p.head.start p.children) p.head.stop) ++ textAt source.toUTF8 p.head.stop stop)
    (hcovers : ∀ c ∈ p.children, ∀ n up lead, t.Holds n (copyFrom source.toUTF8 up lead n c) → o.parts[n]? = some c →
      Covers o source c.head.start (t.pieces fuel n) (comments c.heads) c.head.stop) :
    Covers o source p.head.start (t.pieces (fuel + 1) n) (comments p.heads) stop := by
  have hkind : t.kind n ≠ .comment := hcopied.kind ▸ hk
  have hcomments : comments p.heads = comments (headsAll p.children) := by
    cases p with
    | node h cs =>
      have hk : h.kind ≠ .comment := hk
      simp [comments, heads, Outline.children, hk]
  rw [hcomments]
  by_cases hleaf : p.children = []
  · have hnone : t.children n = [] := by rw [hcopied.children, hleaf, names]
    have htext : t.text n = textAt source.toUTF8 p.head.start p.head.stop := by rw [hcopied.text, hleaf]; rfl
    have htail : (t.node n).trailing = textAt source.toUTF8 p.head.stop stop := by
      rw [htrailing, hleaf]
      exact String.empty_append
    rw [pieces_leaf hkind hnone, htext, htail, hleaf]
    apply Covers.token (getElem?_heads hp) hfits.start_boundary hfits.start_le_stop
    exact .gap hfits.stop_boundary hle (.nil hstop)
  · have hinner : t.children n ≠ [] := by
      rw [hcopied.children]
      cases hc : p.children with
      | nil => exact absurd hc hleaf
      | cons c cs => simp [names]
    have hcs : ∀ c ∈ p.children, c.Fits source := fun c hc => hfits.child hc
    have hrow :=
      covers_children hcopied.below (Located.of_part hp) hcs hfits.children_inOrder hfits.start_boundary hcovers
    have hlast := InOrder.lastStop_le hfits.children_inOrder
    have htail : (t.node n).trailing = textAt source.toUTF8 (lastStop p.head.start p.children) stop := by
      rw [htrailing, if_neg (by simpa using hleaf)]
      exact textAt_append hrow.boundary_right hfits.stop_boundary hstop hlast hle
    rw [pieces_inner hkind hinner, hcopied.children, htail, ← List.append_nil (comments _)]
    exact hrow.append (.gap hrow.boundary_right (hlast.trans hle) (.nil hstop))

theorem covers_copy {fuel : Nat} {up : Option NodeId} {lead : String} (hfits : p.Fits source) (hfuel : p.size ≤ fuel)
    (hold : t.Holds n (copyFrom source.toUTF8 up lead n p)) (hp : o.parts[n]? = some p) :
    Covers o source p.head.start (t.pieces fuel n) (comments p.heads) p.head.stop := by
  induction fuel generalizing p n up lead with
  | zero =>
    have := size_pos p
    omega
  | succ fuel ih =>
    by_cases hk : p.head.kind = .comment
    · have hleaf := hfits.comment_leaf p mem_parts_self hk
      have htext : t.text n = textAt source.toUTF8 p.head.start p.head.stop := by
        have := hold.copied.text
        rwa [hleaf, if_pos rfl] at this
      have hheads : comments p.heads = [p.head] := by
        cases p with
        | node h cs =>
          obtain rfl : cs = [] := List.isEmpty_iff.mp hleaf
          have hk : h.kind = .comment := hk
          simp [comments, heads, headsAll, head, hk]
      rw [pieces_comment (hold.copied.kind.trans hk), htext, hheads]
      exact .comment hfits.start_boundary hfits.start_le_stop (.nil hfits.stop_boundary)
    · apply covers_node hold.copied hp hfits hk hfits.stop_boundary le_rfl
      · rw [hold.trailing_first, textAt_self, String.append_empty]
      · intro c hc m up lead hold hm
        have := size_lt_of_child hc
        exact ih (hfits.child hc) (by omega) hold hm

/-- The printed tree covers its source. -/
theorem covers_printed (ho : o.Fits source) (hroot : o.head.kind ≠ .comment)
    (ht : Tree.ofOutline o source.toUTF8 path = .ok t) :
    Covers o source 0 t.printed (comments o.heads) source.toUTF8.size := by
  have hzero := (nodes_ofOutline ht).2
  have hsize := size_ofOutline ht
  obtain ⟨hcopied, hleading, _, htrailing⟩ := root_ofOutline ht
  obtain ⟨fuel, hfuel⟩ : ∃ fuel, t.size = fuel + 1 := ⟨t.size - 1, by have := size_pos o; omega⟩
  rw [printed, hzero, hleading, hfuel]
  apply Covers.gap (boundary_zero source) (Nat.zero_le _)
  apply covers_node hcopied (getElem?_parts_zero o) ho hroot (boundary_size source) ho.stop_boundary.le_size htrailing
  intro c hc m up lead hold hm
  have := size_lt_of_child hc
  exact covers_copy (ho.child hc) (by omega) hold hm

/-! ## Between two leaves -/

theorem split_token {l l' : List NodeId} (h : tokens ps = l ++ a :: l') :
    ∃ pre x post, ps = pre ++ .token a x :: post ∧ tokens pre = l ∧ tokens post = l' := by
  obtain ⟨front, rest, rfl, hfront, hrest⟩ := List.filterMap_eq_append_iff.mp h
  obtain ⟨gaps, q, post, rfl, hgaps, hq, hpost⟩ := List.filterMap_eq_cons_iff.mp hrest
  cases q with
  | gap _ => cases hq
  | token m x =>
    obtain rfl := Option.some.inj hq
    refine ⟨front ++ gaps, x, post, by simp, ?_, hpost⟩
    rw [tokens_append, tokens, hfront, tokens, List.filterMap_eq_nil_iff.mpr hgaps, List.append_nil]

/-- The text between two leaves. The leaves of a fresh tree are printed in the order of the tree. Between two of them
that follow each other its text is that of the source, each comment that stands there replaced by its stub. So there is
some text if the source has some, as long as each line comment ends before the second leaf; and a line break of the
source is printed or stood in one of the comments. -/
theorem trivia_left (ho : o.Fits source) (ht : Tree.ofOutline o source.toUTF8 path = .ok t) :
    spell t.printed = t.render ∧ tokens t.printed = t.walk.filter t.isToken ∧
    ∀ l a b l', t.walk.filter t.isToken = l ++ a :: b :: l' → ∃ ha hb pre mid post,
      o.heads[a]? = some ha ∧ o.heads[b]? = some hb ∧ ha.stop ≤ hb.start ∧
      t.printed = pre ++ .token a (textAt source.toUTF8 ha.start ha.stop) ::
        (mid ++ .token b (textAt source.toUTF8 hb.start hb.stop) :: post) ∧ tokens pre = l ∧ tokens post = l' ∧
      ∃ before cs behind, comments o.heads = before ++ cs ++ behind ∧ (∀ c ∈ before, c.stop ≤ ha.start) ∧
        (∀ c ∈ cs, ha.stop ≤ c.start ∧ c.stop ≤ hb.start) ∧ (∀ c ∈ behind, hb.stop ≤ c.start) ∧
        spell mid = stubbed source.toUTF8 ha.stop hb.start cs ∧
        ((∀ c ∈ cs, isBlockComment (textAt source.toUTF8 c.start c.stop) = false → c.stop < hb.start) →
          textAt source.toUTF8 ha.stop hb.start ≠ "" → spell mid ≠ "") ∧
        (breaksLine (textAt source.toUTF8 ha.stop hb.start) ↔
          breaksLine (spell mid) ∨ ∃ c ∈ cs, breaksLine (textAt source.toUTF8 c.start c.stop)) := by
  have hcomments : ∀ n, t.kind n = .comment → t.children n = [] := fun n =>
    leaf_of_comment ht fun p hp hk => by simpa using ho.comment_leaf p hp hk
  have htokens : tokens t.printed = t.walk.filter t.isToken := by
    rw [printed, walk, walkFrom, ← tokens_pieces hcomments]
    rfl
  refine ⟨t.spell_printed, htokens, ?_⟩
  intro l a b l' hrow
  rw [← htokens] at hrow
  have hroot : o.head.kind ≠ .comment := by
    intro hk
    obtain ⟨k, hsize⟩ : ∃ k, t.size = k + 1 := ⟨t.size - 1, by have := size_ofOutline ht; have := size_pos o; omega⟩
    have hkind : t.kind t.root = .comment := by rw [(nodes_ofOutline ht).2, (root_ofOutline ht).1.kind, hk]
    rw [printed, hsize, pieces_comment hkind] at hrow
    have hlength := congrArg List.length hrow
    simp [tokens] at hlength
  obtain ⟨pre, x, rest, hsplit, hpre, hrest⟩ := split_token hrow
  obtain ⟨mid, z, post, rfl, hmid, hpost⟩ := split_token (l := []) hrest
  have hcovers := covers_printed ho hroot ht
  rw [hsplit] at hcovers
  obtain ⟨ha, before, others, hao, rfl, hale, hall, hbefore, hothers⟩ := hcovers.at_token
  obtain ⟨hb, cs, behind, hbo, rfl, hble, rfl, hcs, hbehind⟩ := hothers.at_token
  refine ⟨ha, hb, pre, mid, post, hao, hbo, hcs.le, hsplit, hpre, hpost, before, cs, behind,
    by rw [hall, List.append_assoc], fun c hc => (hbefore.within c hc).2.1, fun c hc => ?_,
    fun c hc => (hbehind.within c hc).1, hcs.spell_eq hmid, ?_, hcs.breaksLine_iff hmid⟩
  · exact ⟨(hcs.within c hc).1, (hcs.within c hc).2.1⟩
  · intro hline hsome hempty
    apply hsome
    rw [hcs.eq_of_spell_eq_empty hmid hline hempty, textAt_self]

/-- The program `a` and, behind a comment of two lines, `b`. -/
def splitComment : Outline :=
  .node { kind := .program, start := 0, stop := 8 } [
    .node { kind := .expressionStatement, start := 0, stop := 1 } [
      .node { kind := .identifier, start := 0, stop := 1 } []],
    .node { kind := .comment, start := 1, stop := 6 } [],
    .node { kind := .expressionStatement, start := 6, stop := 7 } [
      .node { kind := .identifier, start := 6, stop := 7 } []]]

def splitText : String := "a/*\n*/b\n"

def splitTree : Tree := { nodes := (splitComment.nodes splitText.toUTF8).toArray }

/-- The only line break between the two statements stands in the comment and is not printed. -/
theorem trivia_left_splitComment : splitComment.Fits splitText ∧
    Tree.ofOutline splitComment splitText.toUTF8 none = .ok splitTree ∧
    answer? (({} : Engine).run { tree := splitTree }) (fun _ w => w.tree.render) = some "a b\n" ∧
    ∃ pre mid post, splitTree.printed = pre ++ .token 2 "a" :: (mid ++ .token 5 "b" :: post) ∧ spell mid = " " ∧
      breaksLine (spell mid) = false ∧ breaksLine (textAt splitText.toUTF8 1 6) = true := by
  have hfits : splitComment.Fits splitText := by decide +kernel
  have ht : Tree.ofOutline splitComment splitText.toUTF8 none = .ok splitTree := ofOutline_eq_ok hfits none
  obtain ⟨_, _, hbetween⟩ := trivia_left hfits ht
  obtain ⟨ha, hb, pre, mid, post, hao, hbo, _, hsplit, _, _, before, cs, behind, hall, hbefore, _, hbehind, hspell,
    _⟩ := hbetween [] 2 5 [] (by decide +kernel)
  obtain rfl := Option.some.inj hao
  obtain rfl := Option.some.inj hbo
  have hone : before ++ cs ++ behind = [{ kind := .comment, start := 1, stop := 6 }] :=
    hall.symm.trans (by decide +kernel)
  have hmem : ∀ c ∈ before ++ cs ++ behind, c.start = 1 ∧ c.stop = 6 := by
    rw [hone]
    simp
  obtain rfl : before = [] := by
    refine List.eq_nil_iff_forall_not_mem.mpr fun c hc => ?_
    have hle := hbefore c hc
    rw [(hmem c (by simp [hc])).2] at hle
    exact absurd hle (by decide)
  obtain rfl : behind = [] := by
    refine List.eq_nil_iff_forall_not_mem.mpr fun c hc => ?_
    have hle := hbehind c hc
    rw [(hmem c (by simp [hc])).1] at hle
    exact absurd hle (by decide)
  obtain rfl : cs = [{ kind := .comment, start := 1, stop := 6 }] := by simpa using hone
  have hblank : spell mid = " " := hspell.trans (by decide +kernel)
  have hfirst : textAt splitText.toUTF8 0 1 = "a" := by decide +kernel
  have hsecond : textAt splitText.toUTF8 6 7 = "b" := by decide +kernel
  rw [hfirst, hsecond] at hsplit
  exact ⟨hfits, ht, by decide +kernel, pre, mid, post, hsplit, hblank, by rw [hblank]; decide, by decide +kernel⟩

end DeadCode
