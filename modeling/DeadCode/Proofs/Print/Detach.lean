import DeadCode.Proofs.Engine.Followers
import DeadCode.Proofs.Engine.Jobs
import DeadCode.Proofs.Names.Checks
import DeadCode.Proofs.Print.RoundTrip
import DeadCode.Proofs.Print.Shares

/-!
The exact effect of a detachment. Main statement `detach_exact`: a detachment of an attached node succeeds, changes
no more than `Plucked` says, and takes from the printed text the shares of the node and of the comma that leaves with
it; the first member that is left takes over the leading text of a first member that went. On any other node it fails
and changes nothing.
-/

namespace DeadCode

open Outline

namespace Tree

variable {t t' : Tree} {p n : NodeId} {before after : List NodeId}

/-- The shares of some nodes, the first of them behind another leading text. -/
def sharesBehind (t : Tree) (leading : String) : List NodeId → String
  | [] => ""
  | c :: cs => leading ++ t.shown c ++ t.shares cs

/-- What a child list prints after the member `n` left it. -/
def sharesWithout (t : Tree) (before : List NodeId) (n : NodeId) (after : List NodeId) : String :=
  match t.spared before after with
  | ([], rest) => t.sharesBehind (t.node n).leading rest
  | (front, rest) => t.shares front ++ t.shares rest

theorem sharesWithout_of_front {front rest : List NodeId} (h : t.spared before after = (front, rest))
    (hfront : front ≠ []) : t.sharesWithout before n after = t.shares front ++ t.shares rest := by
  rw [sharesWithout, h]
  cases front with
  | nil => exact absurd rfl hfront
  | cons f fs => rfl

/-- `t'` prints what `t` prints without the shares of `n` and its comma. If `p` has no child left, then its own text is
printed, which nodes with children have none of in a parse. -/
structure PrintsWithout (t t' : Tree) (p n : NodeId) (before after : List NodeId) : Prop where
  hidden : t.InComment p → t'.render = t.render
  around : ¬ t.InComment p → ∃ front back, t.Around p front back ∧ t'.Around p front back ∧
    t.render = front ++ (t.shares before ++ t.share n ++ t.shares after) ++ (t.node p).trailing ++ back ∧
    t'.render = front ++ ((if t.remaining before after = [] then t.text p else "") ++
      t.sharesWithout before n after) ++ (t.node p).trailing ++ back

namespace Plucked

section

variable (h : Plucked t t' p n before after) (ht : t.Consistent) (hroot : t.Below t.root p)
  (hc : t.children p = before ++ n :: after)

include h ht hc

theorem stays_of_not_child {m : NodeId} (hm : t.parent m ≠ some p) (hmp : m ≠ p) : t'.node m = t.node m := by
  have hmem : m ∉ before ++ n :: after := fun hin => hm ((ht.mem_children p m).mp (hc ▸ hin))
  have hnd : (before ++ n :: after).Nodup := hc ▸ ht.nodup p
  have hfirst : t.newFirst? before after ≠ some m := fun hf => hmem (newFirst?_mem hnd hf).1
  rw [h.stays m fun hin => hmem (mem_of_leaves hin), if_neg hmp, if_neg hfirst]
  rfl

include hroot

theorem node_parent : t'.node p = { t.node p with children := t.remaining before after } := by
  have hmem : p ∉ before ++ n :: after := fun hin =>
    not_below_of_parent ht hroot ((ht.mem_children p p).mp (hc ▸ hin)) .refl
  have hnd : (before ++ n :: after).Nodup := hc ▸ ht.nodup p
  have hfirst : t.newFirst? before after ≠ some p := fun hf => hmem (newFirst?_mem hnd hf).1
  rw [h.stays p fun hin => hmem (mem_of_leaves hin), if_pos rfl, if_neg hfirst]

/-- A member that stays prints what it printed. -/
theorem shown_remaining {c : NodeId} (hmem : c ∈ t.remaining before after) : t'.shown c = t.shown c ∧
    (t'.node c).leading = if t.newFirst? before after = some c then (t.node n).leading else (t.node c).leading := by
  have hnd : (before ++ n :: after).Nodup := hc ▸ ht.nodup p
  obtain ⟨hin, hstay⟩ := (mem_remaining_iff hnd).mp hmem
  have hp := (ht.mem_children p c).mp (hc ▸ hin)
  have hcp : c ≠ p := by
    rintro rfl
    exact not_below_of_parent ht hroot hp .refl
  have hnode := h.stays c hstay
  rw [if_neg hcp] at hnode
  constructor
  · apply shown_same ht h.frame.2.2.1 (.step hp hroot) ⟨_, hnode⟩
    intro m hm hmc
    apply h.stays_of_not_child ht hc
    · intro hmp
      obtain ⟨q, hq, hcq⟩ := hm.parent hmc
      obtain rfl := Option.some.inj (hmp.symm.trans hq)
      exact not_below_of_parent ht hroot hp hcq
    · rintro rfl
      exact not_below_of_parent ht hroot hp hm
  · rw [hnode]

theorem shares_remaining : t'.shares (t.remaining before after) = t.sharesWithout before n after := by
  have hnd : (t.remaining before after).Nodup := remaining_eq (hc ▸ ht.nodup p) ▸ (hc ▸ ht.nodup p).filter _
  have hplain : ∀ c ∈ t.remaining before after, t.newFirst? before after ≠ some c → t'.share c = t.share c := by
    intro c hmem hfirst
    obtain ⟨hs, hl⟩ := h.shown_remaining ht hroot hc hmem
    rw [share, share, hs, hl, if_neg hfirst]
  have hfirst : ∀ c ∈ t.remaining before after, t.newFirst? before after = some c →
      t'.share c = (t.node n).leading ++ t.shown c := by
    intro c hmem hfirst
    obtain ⟨hs, hl⟩ := h.shown_remaining ht hroot hc hmem
    rw [share, hs, hl, if_pos hfirst]
  rw [sharesWithout]
  unfold newFirst? at hfirst hplain
  unfold remaining at hfirst hplain hnd ⊢
  rcases hs : t.spared before after with ⟨front, rest⟩
  rw [hs] at hfirst hplain hnd
  cases front with
  | nil =>
    cases rest with
    | nil => rfl
    | cons c cs =>
      have hlater : t'.shares cs = t.shares cs := by
        apply shares_congr
        intro d hd
        apply hplain d (List.mem_cons_of_mem c hd)
        intro he
        obtain rfl : c = d := Option.some.inj he
        exact (List.nodup_cons.mp hnd).1 hd
      change t'.shares (c :: cs) = _
      rw [shares_cons, hfirst c List.mem_cons_self rfl, hlater]
      rfl
  | cons f fs =>
    rw [shares_congr fun c hmem => hplain c hmem (by simp)]
    exact shares_append ..

end

end Plucked

/-- What a detachment does to the printed text. -/
theorem Plucked.printsWithout (h : Plucked t t' p n before after) (ht : t.Consistent) (ht' : t'.Consistent)
    (hroot : t.Below t.root p) (hc : t.children p = before ++ n :: after) : PrintsWithout t t' p n before after := by
  have hnode := h.node_parent ht hroot hc
  have hsame : ∀ m, ¬ t.Below p m → t'.node m = t.node m := by
    intro m hm
    exact h.stays_of_not_child ht hc (fun hp => hm (.of_parent hp)) fun hmp => hm (hmp ▸ .refl)
  constructor
  · intro hcomment
    exact render_inComment ht ht' h.frame.1 h.frame.2.2.1 hroot hcomment hnode hsame
  intro hcomment
  have habove : ∀ q, t.parent p = some q → ¬ t.InComment q := fun q hq hin =>
    hcomment ((inComment_child hq).mpr (.inr hin))
  obtain ⟨front, back, haround, haround', hr, hr'⟩ :=
    render_same ht ht' h.frame.1 h.frame.2.2.1 hroot habove hnode hsame
  have hk : t.kind p ≠ .comment := fun hk => hcomment ⟨p, .refl, hk⟩
  have hk' : t'.kind p ≠ .comment := by rwa [kind, hnode]
  have hchildren : t'.children p = t.remaining before after := by rw [children, hnode]
  have htext : t'.text p = t.text p := by rw [text, hnode, text]
  refine ⟨front, back, haround, haround', ?_, ?_⟩
  · rw [hr, shown_eq hroot ht hk, hc, if_neg (by simp), shares_append, shares_cons]
    simp only [String.append_assoc]
  · rw [hr', shown_eq (haround'.attached ht') ht' hk', hchildren, htext, ← h.shares_remaining ht hroot hc, hnode]
    by_cases hnone : t.remaining before after = []
    · simp [hnone, shares, String.append_assoc]
    · simp [hnone, String.append_assoc]

/-- Inner nodes of a parse have no text of their own, whatever was taken out. -/
theorem Edited.text_of_inner {o : Outline} {bytes : ByteArray} {path : Option String}
    (hedited : t.Edited t') (ht : Tree.ofOutline o bytes path = .ok t) (hp : t'.children p ≠ []) :
    t'.text p = "" := by
  have hrem := hedited.remains (consistent_ofOutline ht)
  have hlt : p < t.size := by
    by_contra hge
    exact hp (hrem.fresh_leaf p (not_lt.mp hge))
  obtain ⟨q, _, hcopied⟩ := exists_copied ht hlt
  have hinner : q.children ≠ [] := by
    intro hnone
    have hleaf : t.children p = [] := by rw [hcopied.children, hnone, names]
    exact hp (hrem.leaf p hlt hleaf)
  rw [hrem.text_eq p hlt, hcopied.text, if_neg (by simpa using hinner)]

end Tree

open DeadCode.Tree

theorem Job.run_detach (w : Workspace) (n : NodeId) : (Job.detach n).run w =
    match w.tree.detach n with
    | .error e => .error e w
    | .ok t => .ok n (w.settle t n) := by
  unfold Job.detach
  change (match w.tree.detach n with
    | .error e => throw e
    | .ok t => do modify (·.settle t n); return n : Job NodeId) w = _
  cases w.tree.detach n <;> rfl

/-- A detachment takes out an attached node with one comma beside it, gives the leading text of a first member to the
new first one, changes no other field of a node that is left and counts as one mutation; the printed text loses the
shares of the two. A node without a parent and one that its parent does not list cannot be detached: nothing changes.
-/
theorem detach_exact (w : Workspace) (n : NodeId) :
    (w.tree.Consistent → w.tree.contains n = true → n ≠ w.tree.root → ∃ p before after t',
      w.tree.children p = before ++ n :: after ∧ (Job.detach n).run w = .ok n (w.settle t' n) ∧
        (w.settle t' n).tree = t' ∧ Plucked w.tree t' p n before after ∧
        (∀ m, t'.contains m = true ↔ w.tree.contains m = true ∧
          ∀ g ∈ n :: (w.tree.commaBeside? before after).toList, ¬ w.tree.Below g m) ∧
        PrintsWithout w.tree t' p n before after) ∧
      (w.tree.parent n = none ∨ (w.tree.node n).removed = true →
        (Job.detach n).run w = .error (.notAttached (w.tree.describe n)) w) ∧
      (∀ p, w.tree.parent n = some p → (w.tree.node n).removed = false → n ∉ w.tree.children p →
        (Job.detach n).run w = .error (.unlisted (w.tree.describe p) (w.tree.describe n)) w) ∧
      ∀ o bytes path t, Tree.ofOutline o bytes path = .ok t → t.Edited w.tree → ∀ p, w.tree.children p ≠ [] →
        w.tree.text p = "" := by
  refine ⟨?_, ?_, ?_, ?_⟩
  · intro ht hn hne
    have hbelow := (contains_iff_below ht).mp hn
    obtain ⟨p, hp, hroot⟩ := hbelow.parent hne
    obtain ⟨before, after, hc⟩ := List.append_of_mem ((ht.mem_children p n).mpr hp)
    obtain ⟨t', hdetach, hplucked⟩ := plucked_of_detach ht hroot hc
    obtain ⟨gone, hcut⟩ := detached_of_parent ht hp hdetach
    have ht' := hcut.consistent ht
    refine ⟨p, before, after, t', hc, by rw [Job.run_detach, hdetach],
      Workspace.tree_settle ..,  hplucked, ?_, hplucked.printsWithout ht ht' hroot hc⟩
    intro m
    rw [contains_iff_below ht', contains_iff_below ht]
    exact hplucked.attached_iff ht hc hdetach
  · intro h
    rw [Job.run_detach, detach]
    rcases h with h | h
    · rw [h]
    · rw [h]
      cases w.tree.parent n <;> rfl
  · intro p hp hr hmem
    rw [Job.run_detach, detach, hp, hr]
    simp only [List.idxOf?_eq_none_iff.mpr hmem]
  · intro o bytes path t ho hedited p hp
    exact hedited.text_of_inner ho hp

/-- The program `import d, * as s from 'm';`. -/
def mixedImport : Outline :=
  .node { kind := .program, start := 0, stop := 27 } [
    .node { kind := .importStatement, start := 0, stop := 26 } [
      .node { kind := .other "import", start := 0, stop := 6, named := false } [],
      .node { kind := .importClause, start := 7, stop := 16 } [
        .node { kind := .identifier, start := 7, stop := 8 } [],
        .node { kind := .comma, start := 8, stop := 9, named := false } [],
        .node { kind := .namespaceImport, start := 10, stop := 16 } [
          .node { kind := .other "*", start := 10, stop := 11, named := false } [],
          .node { kind := .other "as", start := 12, stop := 14, named := false } [],
          .node { kind := .identifier, start := 15, stop := 16 } []]],
      .node { kind := .fromWord, start := 17, stop := 21, named := false } [],
      .node { kind := .other "string", start := 22, stop := 25, field := some .source } [
        .node { kind := .other "'", start := 22, stop := 23, named := false } [],
        .node { kind := .other "string_fragment", start := 23, stop := 24 } [],
        .node { kind := .other "'", start := 24, stop := 25, named := false } []],
      .node { kind := .other ";", start := 25, stop := 26, named := false } []]]

def mixedText : String := "import d, * as s from 'm';\n"

def mixedTree : Tree := { nodes := (mixedImport.nodes mixedText.toUTF8).toArray }

/-- A node whose parent does not list it. -/
def unlistedComma : Tree := { nodes := #[{ kind := .program }, { kind := .comma, text := ",", parent := some 0 }] }

/-- The default import leaves with the comma behind it and cannot be detached again. -/
theorem detach_exact_mixedImport : (∃ w', (Job.detach 4).run { tree := mixedTree } = .ok 4 w' ∧
    Plucked mixedTree w'.tree 3 4 [] [5, 6] ∧ PrintsWithout mixedTree w'.tree 3 4 [] [5, 6] ∧
    mixedTree.render = mixedText ∧ w'.tree.render = "import * as s from 'm';\n" ∧
    (Job.detach 4).run w' = .error (.notAttached (w'.tree.describe 4)) w') ∧ mixedTree.text 3 = "" ∧
    (Job.detach 1).run { tree := unlistedComma } =
      .error (.unlisted (unlistedComma.describe 0) (unlistedComma.describe 1)) { tree := unlistedComma } := by
  have hcopy : Tree.ofOutline mixedImport mixedText.toUTF8 none = .ok mixedTree :=
    ofOutline_eq_ok (by decide +kernel) none
  have hcons := consistent_ofOutline hcopy
  obtain ⟨hattached, _, _, hinner⟩ := detach_exact { tree := mixedTree } 4
  obtain ⟨p, before, after, t', hc, hrun, hw, hplucked, _, hprints⟩ :=
    hattached hcons (by decide +kernel) (by decide +kernel)
  have hparent : mixedTree.parent 4 = some p := (hcons.mem_children p 4).mp (by rw [hc]; simp)
  obtain rfl : p = 3 := Option.some.inj (hparent.symm.trans (by decide +kernel))
  have hlist : before ++ 4 :: after = [4, 5, 6] := hc.symm.trans (by decide +kernel)
  obtain ⟨rfl, rfl⟩ : before = [] ∧ after = [5, 6] := by
    cases before with
    | nil => exact ⟨rfl, (List.cons.inj hlist).2⟩
    | cons b before =>
      have hin : 4 ∈ [5, 6] := (List.cons.inj hlist).2 ▸ by simp
      exact absurd hin (by decide)
  have hout : answer? ((Job.detach 4).run { tree := mixedTree }) (fun _ w => w.tree.render) =
      some "import * as s from 'm';\n" := by decide +kernel
  obtain ⟨_, _, hrun', hout⟩ := answer?_eq_some.mp hout
  obtain ⟨_, rfl⟩ := EStateM.Result.ok.inj (hrun.symm.trans hrun')
  refine ⟨⟨_, hrun, hw ▸ hplucked, hw ▸ hprints, by decide +kernel, hout, ?_⟩, ?_, ?_⟩
  · apply (detach_exact _ 4).2.1
    left
    rw [hw, Tree.parent, hplucked.leaves 4 List.mem_cons_self]
  · exact hinner mixedImport _ none mixedTree hcopy .refl 3 (by decide +kernel)
  · exact (detach_exact { tree := unlistedComma } 1).2.2.1 0 rfl rfl (by decide +kernel)

end DeadCode
