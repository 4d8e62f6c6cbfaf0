import DeadCode.Proofs.Print.Gaps
import DeadCode.Proofs.Print.Detach
import DeadCode.Proofs.Print.Output

/-!
Line breaks between two statements. A statement that is removed takes the text before it with it. So between two
neighbours that are left there stands a line break exactly if one stood in the text before the second of them, or
before or in a comment that is left between them (`statements_apart`).
-/

namespace DeadCode

open Outline DeadCode.Tree

/-- The characters that end a line of a program. -/
def isLineBreak (c : Char) : Bool := c = '\n' || c = '\r' || c.toNat = 0x2028 || c.toNat = 0x2029

def breaksLine (s : String) : Bool := s.toList.any isLineBreak

theorem breaksLine_append (s s' : String) : breaksLine (s ++ s') = (breaksLine s || breaksLine s') := by
  simp [breaksLine]

namespace Tree

variable {t u v : Tree} {o : Outline} {source : String} {path : Option String} {q n p s : NodeId}
  {before mid mid' after : List NodeId}

/-- A child list is printed, since comments have no children. -/
theorem Edited.not_inComment (he : t.Edited u) (ho : o.Fits source)
    (ht : Tree.ofOutline o source.toUTF8 path = .ok t) (hc : u.children q ≠ []) :
    ¬ u.InComment q := by
  rintro ⟨c, hcq, hk⟩
  have hrem := he.remains (consistent_ofOutline ht)
  have hinner : u.children c ≠ [] := by
    intro hnone
    obtain rfl := hcq.eq_of_leaf hrem.consistent hnone
    exact hc hnone
  have hlt : c < t.size := by
    by_contra hge
    exact hinner (hrem.fresh_leaf c (not_lt.mp hge))
  apply hinner
  apply hrem.leaf c hlt
  apply leaf_of_comment ht
  · intro p hp hpk
    simpa using ho.comment_leaf p hp hpk
  · rw [← hrem.kind_eq c hlt, hk]

/-- Two members that stay, one on each side, are out of the reach of the comma that leaves. -/
theorem spared_between (hp : u.commaBeside? (before ++ p :: mid) (mid' ++ s :: after) ≠ some p)
    (hs : u.commaBeside? (before ++ p :: mid) (mid' ++ s :: after) ≠ some s) :
    u.commaBeside? (before ++ p :: mid) (mid' ++ s :: after) = u.commaBeside? mid mid' ∧
      u.spared (before ++ p :: mid) (mid' ++ s :: after) =
        (before ++ p :: (u.spared mid mid').1, (u.spared mid mid').2 ++ s :: after) := by
  have hnext : (∀ d, mid'.head? = some d → u.kind d ≠ .comma) →
      ∀ d, (mid' ++ s :: after).head? = some d → u.kind d ≠ .comma := by
    intro h d hd hk
    cases mid' with
    | cons e rest => exact h d hd hk
    | nil =>
      obtain rfl : s = d := Option.some.inj hd
      exact hs (spared_next hk).1
  rcases u.comma_cases mid mid' with ⟨c, rest, rfl, hk⟩ | ⟨c, front, rfl, hk, hno⟩ | hno
  · rw [List.cons_append, (spared_next hk).1, (spared_next hk).1, (spared_next hk).2, (spared_next hk).2]
    exact ⟨rfl, rfl⟩
  · rw [← List.cons_append, ← List.append_assoc, (spared_previous hk (hnext hno)).1, (spared_previous hk hno).1,
      (spared_previous hk (hnext hno)).2, (spared_previous hk hno).2]
    exact ⟨rfl, rfl⟩
  · have hnext := hnext fun d hd => hno d (.inl hd)
    have hprevious : ∀ c, (before ++ p :: mid).getLast? = some c → u.kind c ≠ .comma := by
      intro c hc hk
      rcases List.eq_nil_or_concat mid with rfl | ⟨front, d, rfl⟩
      · obtain rfl : p = c := by simpa using hc
        exact hp (spared_previous hk hnext).1
      · rw [List.concat_eq_append, ← List.cons_append, ← List.append_assoc, List.getLast?_concat] at hc
        obtain rfl := Option.some.inj hc
        exact hno d (.inr (by simp)) hk
    have halone : ∀ c, (mid' ++ s :: after).head? = some c ∨ (before ++ p :: mid).getLast? = some c →
        u.kind c ≠ .comma := fun c hc => hc.elim (hnext c) (hprevious c)
    rw [(spared_alone halone).1, (spared_alone halone).2, (spared_alone hno).1, (spared_alone hno).2]
    exact ⟨rfl, rfl⟩

/-- A line break in the shares of some siblings stands in one that stays, or in the comma that leaves. -/
theorem breaksLine_spared (u : Tree) (mid mid' : List NodeId) :
    (breaksLine (u.shares mid) ∨ breaksLine (u.shares mid')) ↔
      breaksLine (u.shares (u.spared mid mid').1) ∨ breaksLine (u.shares (u.spared mid mid').2) ∨
        ∃ c, u.commaBeside? mid mid' = some c ∧ breaksLine (u.share c) := by
  rcases u.comma_cases mid mid' with ⟨c, rest, rfl, hk⟩ | ⟨c, front, rfl, hk, hno⟩ | hno
  · rw [(spared_next hk).1, (spared_next hk).2, shares_cons, breaksLine_append]
    simp only [Bool.or_eq_true, Option.some.injEq, exists_eq_left', or_comm, or_left_comm]
  · have hnone : breaksLine (u.shares []) = false := rfl
    rw [(spared_previous hk hno).1, (spared_previous hk hno).2, shares_append, shares_cons, breaksLine_append,
      breaksLine_append, hnone, Bool.or_false]
    simp only [Bool.or_eq_true, Option.some.injEq, exists_eq_left', or_assoc, or_comm, or_left_comm]
  · rw [(spared_alone hno).1, (spared_alone hno).2]
    simp

/-- The text before a member that is not the first is what the source has between it and its previous sibling. -/
theorem Edited.leading_source (he : t.Edited u) (ht : Tree.ofOutline o source.toUTF8 path = .ok t) (hlt : s < t.size)
    (hlater : u.Later q s) : ∃ y hy hs, t.Neighbours q y s ∧ o.heads[y]? = some hy ∧ o.heads[s]? = some hs ∧
      (u.node s).leading = textAt source.toUTF8 hy.stop hs.start := by
  obtain ⟨hlater, hlead⟩ := he.leading_kept (consistent_ofOutline ht) hlt hlater
  obtain ⟨y, front, back, hchildren⟩ := hlater.neighbours
  obtain ⟨a, b, ha, hb, _, htext⟩ := leading_copied ht hchildren
  exact ⟨y, a.head, b.head, ⟨front, back, hchildren⟩, getElem?_heads ha, getElem?_heads hb, hlead.trans htext⟩

end Tree

open DeadCode.Tree

variable {t : Tree} {o : Outline} {source : String} {path : Option String}

/-- What stands between two statements of a list before and after a statement between them is removed. The engine edits
by removals. After any of them, a removal takes away the share of the statement (and of a comma beside it), the text
before it included, and leaves the shares of what else stands between the two, and the text before the second, which is
what the source has between it and its previous sibling `y` of old. A line break that is lost stood in what was taken
away: so one is left if the source has one between `y` and the second statement, and none if there is none and nothing
else stands between the two. -/
theorem statements_apart (ho : o.Fits source) (ht : Tree.ofOutline o source.toUTF8 path = .ok t) :
    (∀ (e : Engine) (w : Workspace), w.tree = t →
      e.run.Ends w (fun _ w' => t.Edited w'.tree) fun _ w' => t.Edited w'.tree) ∧
    ∀ u v q n p s before mid mid' after, t.Edited u → u.contains q = true → (u.kind q).listsStatements = true →
      u.children q = before ++ p :: (mid ++ n :: (mid' ++ s :: after)) → u.removeStatement n = .ok (some v) →
      v.contains p = true → v.contains s = true → s < t.size →
        ∃ front back y hy hs, t.Neighbours q y s ∧ o.heads[y]? = some hy ∧ o.heads[s]? = some hs ∧
          let gap := textAt source.toUTF8 hy.stop hs.start
          let old := u.shares mid ++ u.share n ++ u.shares mid' ++ gap
          let new := u.shares (u.spared mid mid').1 ++ u.shares (u.spared mid mid').2 ++ gap
          u.render = front ++ u.shown p ++ old ++ u.shown s ++ back ∧
          v.render = front ++ u.shown p ++ new ++ u.shown s ++ back ∧
          (breaksLine old ↔ breaksLine new ∨ breaksLine (u.share n) ∨
            ∃ c, u.commaBeside? mid mid' = some c ∧ breaksLine (u.share c)) := by
  refine ⟨fun e w hw => hw ▸ e.run_edited w, ?_⟩
  intro u v q n p s before mid mid' after he hq hlists hc hremove hp hs hlt
  have hcons := (he.remains (consistent_ofOutline ht)).consistent
  have hroot := (contains_iff_below hcons).mp hq
  have hc : u.children q = (before ++ p :: mid) ++ n :: (mid' ++ s :: after) := by simpa using hc
  have hn : u.parent n = some q := (hcons.mem_children q n).mp (by rw [hc]; simp)
  have hdetach : u.detach n = .ok v := by
    rw [removeStatement, hn] at hremove
    exact ok_of_map_some (by simpa only [hlists, if_true] using hremove)
  obtain ⟨v', hdetach', hplucked⟩ := plucked_of_detach hcons hroot hc
  obtain rfl := Except.ok.inj (hdetach'.symm.trans hdetach)
  obtain ⟨gone, hcut⟩ := detached_of_parent hcons hn hdetach
  have hcons' := hcut.consistent hcons
  -- the two neighbours are left, so neither is the comma that goes
  have hstays : ∀ m, v'.contains m = true →
      u.commaBeside? (before ++ p :: mid) (mid' ++ s :: after) ≠ some m := by
    intro m hm hcomma
    have hleft := ((hplucked.attached_iff hcons hc hdetach).mp ((contains_iff_below hcons').mp hm)).2
    exact hleft m (by simp [hcomma]) .refl
  obtain ⟨_, hspared⟩ := spared_between (hstays p hp) (hstays s hs)
  have hinner : ¬ u.InComment q := he.not_inComment ho ht (by rw [hc]; simp)
  obtain ⟨front, back, _, _, hr, hr'⟩ := (hplucked.printsWithout hcons hcons' hroot hc).around hinner
  have hlater : u.Later q s := by
    rw [Later, hc]
    cases before <;> simp
  obtain ⟨y, hy, hs, hneighbours, hyo, hso, hgap⟩ := he.leading_source ht hlt hlater
  refine ⟨front ++ u.shares before ++ (u.node p).leading, u.shares after ++ (u.node q).trailing ++ back, y, hy, hs,
    hneighbours, hyo, hso, ?_, ?_, ?_⟩
  · rw [hr, ← hgap]
    simp only [shares_append, shares_cons, share, String.append_assoc]
  · rw [hr', ← hgap, remaining, hspared, if_neg (by simp), sharesWithout_of_front hspared (by simp)]
    simp only [shares_append, shares_cons, share, String.append_assoc, String.empty_append]
  · have regroup : ∀ {a n b g k l c : Prop}, (a ∨ b ↔ k ∨ l ∨ c) →
        (((a ∨ n) ∨ b) ∨ g ↔ ((k ∨ l) ∨ g) ∨ n ∨ c) := by
      intro a n b g k l c h
      calc ((a ∨ n) ∨ b) ∨ g
          ↔ (a ∨ b) ∨ n ∨ g := by simp only [or_assoc, or_left_comm]
        _ ↔ (k ∨ l ∨ c) ∨ n ∨ g := by rw [h]
        _ ↔ ((k ∨ l) ∨ g) ∨ n ∨ c := by simp only [or_comm, or_left_comm]
    simp only [breaksLine_append, Bool.or_eq_true]
    exact regroup (u.breaksLine_spared mid mid')

/-- The program `x`, and on the next line `var a; y;`. -/
def unterminated : Outline :=
  .node { kind := .program, start := 0, stop := 12 } [
    .node { kind := .expressionStatement, start := 0, stop := 1 } [
      .node { kind := .identifier, start := 0, stop := 1 } []],
    .node { kind := .variableDeclaration, start := 2, stop := 8 } [
      .node { kind := .other "var", start := 2, stop := 5, named := false } [],
      .node { kind := .variableDeclarator, start := 6, stop := 7 } [
        .node { kind := .identifier, start := 6, stop := 7, field := some .name } []],
      .node { kind := .other ";", start := 7, stop := 8, named := false } []],
    .node { kind := .expressionStatement, start := 9, stop := 11 } [
      .node { kind := .identifier, start := 9, stop := 10 } [],
      .node { kind := .other ";", start := 10, stop := 11, named := false } []]]

def unterminatedText : String := "x\nvar a; y;\n"

def unterminatedTree : Tree := { nodes := (unterminated.nodes unterminatedText.toUTF8).toArray }

/-- The line break before the declaration goes with it, and the two expressions end up on one line. -/
theorem statements_apart_unterminated :
    answer? (({} : Engine).run { tree := unterminatedTree }) (fun _ w => w.tree.render) = some "x y;\n" ∧
    ∃ v, unterminatedTree.removeStatement 3 = .ok (some v) ∧ unterminatedTree.render = unterminatedText ∧
      v.render = "x y;\n" ∧ ∃ front back y hy hs, unterminatedTree.Neighbours 0 y 8 ∧
        unterminated.heads[y]? = some hy ∧ unterminated.heads[8]? = some hs ∧
        v.render = front ++ unterminatedTree.shown 1 ++ ("" ++ "" ++ textAt unterminatedText.toUTF8 hy.stop hs.start) ++
          unterminatedTree.shown 8 ++ back ∧
        breaksLine (textAt unterminatedText.toUTF8 hy.stop hs.start) = false := by
  have hfits : unterminated.Fits unterminatedText := by decide +kernel
  have ht : Tree.ofOutline unterminated unterminatedText.toUTF8 none = .ok unterminatedTree :=
    ofOutline_eq_ok hfits none
  obtain ⟨v, hv, hrender, hleft⟩ : ∃ v, unterminatedTree.removeStatement 3 = .ok (some v) ∧ v.render = "x y;\n" ∧
      v.contains 1 = true ∧ v.contains 8 = true := by
    have hout : ((unterminatedTree.removeStatement 3).toOption.join.map fun v => (v.render, v.contains 1, v.contains 8)) =
        some ("x y;\n", true, true) := by decide +kernel
    obtain ⟨v, hv, hout⟩ := Option.map_eq_some_iff.mp hout
    simp only [Prod.mk.injEq] at hout
    cases hremove : unterminatedTree.removeStatement 3 with
    | error e =>
      rw [hremove] at hv
      cases hv
    | ok r =>
      rw [hremove] at hv
      exact ⟨v, congrArg Except.ok hv, hout⟩
  have hlist : unterminatedTree.children 0 = [1, 3, 8] := by decide +kernel
  obtain ⟨front, back, y, hy, hs, ⟨before, behind, hneighbours⟩, hyo, hso, _, hv', _⟩ :=
    (statements_apart hfits ht).2 unterminatedTree v 0 3 1 8 [] [] [] [] .refl (by decide +kernel) (by decide +kernel)
      hlist hv hleft.1 hleft.2 (by decide +kernel)
  refine ⟨by decide +kernel, v, hv, by decide +kernel, hrender, front, back, y, hy, hs, ⟨before, behind, hneighbours⟩,
    hyo, hso, hv', ?_⟩
  obtain rfl : y = 3 := by
    rw [hlist] at hneighbours
    match before, hneighbours with
    | [], h => simp at h
    | [b], h => exact (List.cons.inj (List.cons.inj h).2).1.symm
    | b :: c :: rest, h =>
      have hlength := congrArg List.length h
      simp only [List.length_append, List.length_cons, List.length_nil] at hlength
      omega
  obtain rfl := Option.some.inj hyo
  obtain rfl := Option.some.inj hso
  decide +kernel

end DeadCode
