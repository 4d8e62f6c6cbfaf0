import DeadCode.Proofs.Engine.Runs
import DeadCode.Proofs.Print.Pieces
import DeadCode.Proofs.Print.RoundTrip

/-!
What is left between two leaves. Main statement `gap_left`: in the text of a tree that came from the copy of a
source by removals, between two leaves of the source stands all that the source has before some node that holds
the second of them and not the first, back to the previous sibling of that node. So two leaves run together only
where such a node stood directly behind its previous sibling.
-/

namespace DeadCode

open Outline DeadCode.Tree

variable {t t' : Tree} {o : Outline} {source : String} {path : Option String} {a b c r s y : NodeId}
  {x z : String} {pre mid post ps : List Piece}

/-- `y` stands directly before `s` among the children of `r`. -/
def Tree.Neighbours (t : Tree) (r y s : NodeId) : Prop := ∃ before behind, t.children r = before ++ y :: s :: behind

theorem Tree.Later.neighbours (h : t.Later r s) : ∃ y, t.Neighbours r y s := by
  unfold Later at h
  unfold Neighbours
  cases hl : t.children r with
  | nil => rw [hl] at h; exact absurd h List.not_mem_nil
  | cons first rest =>
    rw [hl, List.tail_cons] at h
    obtain ⟨before, behind, rfl⟩ := List.append_of_mem h
    rcases List.eq_nil_or_concat before with rfl | ⟨before, y, rfl⟩
    · exact ⟨first, [], behind, rfl⟩
    · exact ⟨y, first :: before, behind, by simp⟩

/-- A text without characters is made of such texts. -/
theorem text_eq_of_spell (h : spell ps = "") : ∀ p ∈ ps, p.text = "" := by
  induction ps with
  | nil => exact fun p hp => absurd hp List.not_mem_nil
  | cons q ps ih =>
    rw [spell_cons] at h
    obtain ⟨hq, hps⟩ := String.append_eq_empty_iff.mp h
    intro p hp
    rcases List.mem_cons.mp hp with rfl | hp
    · exact hq
    · exact ih hps p hp

/-- What holds a leaf of old that is left is a node of old that is left. -/
theorem Tree.Remains.kept_of_below (h : Remains t t') (ht : t.Consistent) (hroot : t'.Below t'.root c)
    (hca : t'.Below c a) (ha : a < t.size) : t.kept t' c = true := by
  have hlt : ∀ {d m : NodeId}, t.Below d m → m < t.size → d < t.size := by
    intro d m hdm hm
    induction hdm with
    | refl => exact hm
    | step hp _ ih => exact ih (ht.parent_lt hp)
  exact h.kept_iff.mpr ⟨hlt (h.below ht ha (hroot.trans hca) hca) ha, hroot⟩

/-- The previous sibling of old, if it is left, is still the last of the members before. -/
theorem Tree.Remains.mem_between (h : Remains t t') {before inner behind : List NodeId}
    (hnew : t'.children r = before ++ c :: (inner ++ s :: behind)) (hold : t.Neighbours r y s)
    (hy : t.kept t' y = true) (hs : t.kept t' s = true) (hc : t.kept t' c = true) : y = c ∨ y ∈ inner := by
  obtain ⟨before', behind', hold⟩ := hold
  have hnd := (h.consistent.nodup r).filter (t.kept t')
  have heq := h.children_eq r
  rw [hold, hnew] at heq
  rw [hnew] at hnd
  simp only [List.filter_append, List.filter_cons, hy, hs, hc, if_true] at heq hnd
  have hsplit : (before.filter (t.kept t') ++ c :: inner.filter (t.kept t')) ++ s :: behind.filter (t.kept t') =
      (before'.filter (t.kept t') ++ [y]) ++ s :: behind'.filter (t.kept t') := by simpa using heq
  have hnd : ((before.filter (t.kept t') ++ c :: inner.filter (t.kept t')) ++ s :: behind.filter (t.kept t')).Nodup := by
    simpa using hnd
  obtain ⟨_, hbehind, hfront⟩ := List.nodup_append.mp hnd
  have hleft : s ∉ before.filter (t.kept t') ++ c :: inner.filter (t.kept t') := fun hin =>
    hfront s hin s List.mem_cons_self rfl
  obtain ⟨hlist, _, _⟩ :=
    (List.append_cons_inj_of_notMem hleft (List.nodup_cons.mp hbehind).1).mp hsplit
  rcases List.eq_nil_or_concat (inner.filter (t.kept t')) with hnil | ⟨rest, last, hlast⟩
  · rw [hnil] at hlist
    exact .inl (List.singleton_inj.mp (List.append_inj' hlist rfl).2).symm
  · rw [hlast, List.concat_eq_append, ← List.cons_append, ← List.append_assoc] at hlist
    obtain rfl := List.singleton_inj.mp (List.append_inj' hlist rfl).2
    have hin : last ∈ inner.filter (t.kept t') := by rw [hlast]; simp
    exact .inr (List.mem_filter.mp hin).1

/-- Every run of the engine edits by removals. After any removals, between two leaves `a` and `b` of the source stands
the text that the source has between some node `s`, which holds `b` but not `a`, and its previous sibling `y` of old.
If `y` is left, then it holds `a` or all that it prints stands in between. -/
theorem gap_left (ho : o.Fits source) (ht : Tree.ofOutline o source.toUTF8 path = .ok t) :
    (∀ (e : Engine) (w : Workspace), w.tree = t →
      e.run.Ends w (fun _ w' => t.Edited w'.tree) fun _ w' => t.Edited w'.tree) ∧
    ∀ t', t.Edited t' → spell t'.printed = t'.render ∧
      ∀ a b x z pre mid post, t'.printed = pre ++ .token a x :: (mid ++ .token b z :: post) → a < t.size →
        b < t.size → ∃ r c y s hy hs, t.Neighbours r y s ∧ o.heads[y]? = some hy ∧ o.heads[s]? = some hs ∧
          t'.parent c = some r ∧ t'.parent s = some r ∧ c ≠ s ∧ t'.Below c a ∧ t'.Below s b ∧
          .gap (textAt source.toUTF8 hy.stop hs.start) ∈ mid ∧ (spell mid = "" → hy.stop = hs.start) ∧
          (t'.Below t'.root y → y = c ∨ ∀ p ∈ t'.pieces t'.size y, p ∈ mid) := by
  refine ⟨fun e w hw => hw ▸ e.run_edited w, fun t' he => ⟨t'.spell_printed, ?_⟩⟩
  intro a b x z pre mid post hp ha hb
  have hcons := consistent_ofOutline ht
  have hrem := he.remains hcons
  obtain ⟨r, c, s, inner, hr, hbetween⟩ := printed_split hrem.consistent hp
  obtain ⟨before, behind, hnew⟩ := hbetween.children
  have hparent : ∀ d ∈ t'.children r, t'.parent d = some r := fun d => (hrem.consistent.mem_children r d).mp
  have hc := hparent c (by rw [hnew]; simp)
  have hs := hparent s (by rw [hnew]; simp)
  have hc_kept : t.kept t' c = true := hrem.kept_of_below hcons (.step hc hr) hbetween.first ha
  have hs_kept : t.kept t' s = true := hrem.kept_of_below hcons (.step hs hr) hbetween.second hb
  have hs_lt : s < t.size := (hrem.kept_iff.mp hs_kept).1
  have hne : c ≠ s := by
    have hnd := hrem.consistent.nodup r
    rw [hnew] at hnd
    rintro rfl
    simp [List.nodup_append] at hnd
  have hlater : t'.Later r s := by
    rw [Later, hnew]
    cases before <;> simp
  obtain ⟨hlater, hlead⟩ := he.leading_kept hcons hs_lt hlater
  obtain ⟨y, u, v, hchildren⟩ := hlater.neighbours
  have hneighbours : t.Neighbours r y s := ⟨u, v, hchildren⟩
  obtain ⟨p, q, hpy, hqs, ⟨up, hup, _, _, hsiblings⟩, htext⟩ := leading_copied ht hchildren
  have hgap : .gap (textAt source.toUTF8 p.head.stop q.head.start) ∈ mid := by
    rw [← htext, ← hlead]
    exact hbetween.gap
  have hheads : ∀ {k : Nat} {d : Outline}, o.parts[k]? = some d → o.heads[k]? = some d.head := by
    intro k d hd
    rw [← map_head_parts, List.getElem?_map, hd]
    rfl
  refine ⟨r, c, y, s, p.head, q.head, hneighbours, hheads hpy, hheads hqs, hc, hs, hne, hbetween.first,
    hbetween.second, hgap, fun hnone => ?_, fun hy => ?_⟩
  · have hp_fits := ho.part (List.mem_of_getElem? hpy)
    have hq_fits := ho.part (List.mem_of_getElem? hqs)
    have horder := (ho.part hup).children_inOrder
    rw [hsiblings] at horder
    have hempty := text_eq_of_spell hnone _ hgap
    rw [Piece.text] at hempty
    exact eq_of_textAt_eq_empty hp_fits.stop_boundary hq_fits.start_boundary horder.neighbours hempty
  · have hy_mem : y ∈ t.children r := by rw [hchildren]; simp
    have hy_kept := hrem.kept_iff.mpr ⟨lt_size_of_parent ((hcons.mem_children r y).mp hy_mem), hy⟩
    exact (hrem.mem_between hnew hneighbours hy_kept hs_kept hc_kept).imp_right fun hin => hbetween.inner y hin

/-- The program `let a,b = 1;` with a use of `b`. -/
def closeList : Outline :=
  .node { kind := .program, start := 0, stop := 15 } [
    .node { kind := .lexicalDeclaration, start := 0, stop := 12 } [
      .node { kind := .other "let", start := 0, stop := 3, named := false, field := some .kind } [],
      .node { kind := .variableDeclarator, start := 4, stop := 5 } [
        .node { kind := .identifier, start := 4, stop := 5, field := some .name } []],
      .node { kind := .comma, start := 5, stop := 6, named := false } [],
      .node { kind := .variableDeclarator, start := 6, stop := 11 } [
        .node { kind := .identifier, start := 6, stop := 7, field := some .name } [],
        .node { kind := .other "=", start := 8, stop := 9, named := false } [],
        .node { kind := .number, start := 10, stop := 11, field := some .value } []],
      .node { kind := .other ";", start := 11, stop := 12, named := false } []],
    .node { kind := .expressionStatement, start := 13, stop := 15 } [
      .node { kind := .identifier, start := 13, stop := 14 } [],
      .node { kind := .other ";", start := 14, stop := 15, named := false } []]]

def closeText : String := "let a,b = 1;\nb;\n"

def closeTree : Tree := { nodes := (closeList.nodes closeText.toUTF8).toArray }

/-- The keyword and the declarator that is left run together, since that declarator stood directly behind the comma. -/
theorem gap_left_closeList : closeList.Fits closeText ∧
    Tree.ofOutline closeList closeText.toUTF8 none = .ok closeTree ∧
    ∃ report w, ({} : Engine).run { tree := closeTree } = .ok report w ∧ w.tree.render = "letb = 1;\nb;\n" ∧
      ∃ r y s hy hs, closeTree.Neighbours r y s ∧ closeList.heads[y]? = some hy ∧ closeList.heads[s]? = some hs ∧
        w.tree.Below s 7 ∧ hy.stop = hs.start := by
  have hfits : closeList.Fits closeText := by decide +kernel
  have ht : Tree.ofOutline closeList closeText.toUTF8 none = .ok closeTree := ofOutline_eq_ok hfits none
  obtain ⟨hruns, hgaps⟩ := gap_left hfits ht
  have hout : answer? (({} : Engine).run { tree := closeTree }) (fun _ w => (w.tree.render, w.tree.printed.take 8)) =
      some ("letb = 1;\nb;\n", [.gap "", .gap "", .gap "", .token 2 "let", .gap "", .gap "", .gap "",
        .token 7 "b"]) := by decide +kernel
  obtain ⟨report, w, hrun, hout⟩ := answer?_eq_some.mp hout
  obtain ⟨hrender, hprinted⟩ := Prod.mk.inj hout
  have hedited : closeTree.Edited w.tree := (hruns {} { tree := closeTree } rfl).of_ok hrun
  have hsplit : w.tree.printed = [.gap "", .gap "", .gap ""] ++ .token 2 "let" ::
      ([.gap "", .gap "", .gap ""] ++ .token 7 "b" :: w.tree.printed.drop 8) := by
    conv_lhs => rw [← List.take_append_drop 8 w.tree.printed, hprinted]
    rfl
  obtain ⟨r, _, y, s, hy, hs, hneighbours, hyo, hso, _, _, _, _, hbelow, _, hmeet, _⟩ :=
    (hgaps w.tree hedited).2 2 7 _ _ _ _ _ hsplit (by decide +kernel) (by decide +kernel)
  exact ⟨hfits, ht, report, w, hrun, hrender, r, y, s, hy, hs, hneighbours, hyo, hso, hbelow, hmeet rfl⟩

end DeadCode
