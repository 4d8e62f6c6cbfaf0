import DeadCode.Proofs.Engine.Runs
import DeadCode.Proofs.Print.Detach
import DeadCode.Proofs.Tree.Regrafts

/-!
Membership under surgery. Whatever call edits the tree of a workspace, child lists and parent links go on to agree on
all that hangs on the root, and what can be reached loses the subtrees that the call takes out, and nothing else
(`surgery_keeps_links`). On trees copied from a parse the test upwards and the search downwards then always give the
same answer.
-/

namespace DeadCode

open DeadCode.Tree Workspace

/-- A node as it is made: it has no children and is not marked as removed. -/
structure Leaf where
  node : Node
  childless : node.children = []
  stands : node.removed = false

/-- A call that edits the tree. -/
inductive Surgery where
  | detach (n : NodeId)
  | removeStatement (n : NodeId)
  | removeListMember (n : NodeId)
  | replace (old : NodeId) (fresh : Leaf)

namespace Surgery

/-- The node that is to go. -/
def subject : Surgery → NodeId
  | detach n | removeStatement n | removeListMember n | replace n _ => n

def perform : Surgery → Job Unit
  | detach n => do let _ ← Job.detach n
  | removeStatement n => do let _ ← Job.removeStatement n
  | removeListMember n => do let _ ← Job.removeListMember n
  | replace old fresh => do
    let new := (← get).tree.size
    modify fun w => { w with tree := (w.tree.add fresh.node).2 }
    let _ ← Job.replace old new

end Surgery

namespace Tree

/-- What leaves with a list member: a comma beside it, and if its clause of an import is left without members, the
clause and the word `from`. -/
def takenWithMember (t : Tree) (n clause : NodeId) : List NodeId :=
  let member := t.lifted (t.children clause) n
  let left := (t.children clause).filter (· ∉ member)
  if t.kind clause = .importClause ∧ left.filter (fun c => (t.node c).named) = [] then
    match t.parent clause with
    | none => member
    | some statement =>
      let siblings := t.children statement
      let rest := siblings.filter (· ∉ t.lifted siblings clause)
      match rest.find? fun c => t.kind c = .fromWord with
      | none => member ++ t.lifted siblings clause
      | some word => member ++ t.lifted siblings clause ++ t.lifted rest word
  else member

/-- The tops of the subtrees that a call takes out, commas among them, and the leaves that it puts in. -/
def exchanged (t : Tree) (call : Surgery) : List NodeId × List NodeId :=
  match t.parent call.subject with
  | none => ([], [])
  | some p =>
    match call with
    | .detach n => (t.lifted (t.children p) n, [])
    | .removeStatement n =>
      if (t.kind p).listsStatements then (t.lifted (t.children p) n, [])
      else if (t.kind p).hasSlot (t.node n).field then ([n], [t.size])
      else ([], [])
    | .removeListMember n => (t.takenWithMember n p, [])
    | .replace old _ => ([old], [t.size])

/-- What a node that leaves may be when `n` is to go. -/
def Takable (t : Tree) (n g : NodeId) : Prop :=
  g = n ∨ t.kind g = .comma ∨ t.kind g = .importClause ∨ t.kind g = .fromWord

end Tree

/-- `w` after some calls on attached nodes below the root, each of which returned. -/
inductive Operated (w : Workspace) : Workspace → Prop
  | refl : Operated w w
  | step {u v : Workspace} {call : Surgery} : Operated w u → u.tree.Reaches u.tree.root call.subject →
      call.subject ≠ u.tree.root → call.perform u = .ok () v → Operated w v

/-- `u` after a call: what hangs on its root is linked, and is what hung there before without the subtrees of the nodes
taken out, with the leaves put in. -/
structure Tree.Operates (t u : Tree) (x : List NodeId × List NodeId) : Prop where
  linked : u.Linked
  reaches_iff : ∀ m, u.Reaches u.root m ↔ t.Reaches t.root m ∧ (∀ g ∈ x.1, ¬ t.Reaches g m) ∨ m ∈ x.2

variable {w w' : Workspace} {t u : Tree} {p n : NodeId} {gone new : List NodeId}

/-! ## Edits of a linked tree -/

namespace Tree

theorem takable_of_mem_lifted {siblings : List NodeId} {k g : NodeId} (hk : t.Takable n k)
    (hg : g ∈ t.lifted siblings k) : t.Takable n g := by
  rcases eq_or_comma_of_mem_lifted hg with rfl | hcomma
  · exact hk
  · exact .inr (.inl hcomma)

theorem takable_of_mem_takenWithMember {clause g : NodeId} (hg : g ∈ t.takenWithMember n clause) :
    t.Takable n g := by
  have hmember : ∀ m ∈ t.lifted (t.children clause) n, t.Takable n m := fun m => takable_of_mem_lifted (.inl rfl)
  simp only [takenWithMember] at hg
  split at hg
  · rename_i hempty
    have hclause : ∀ {siblings : List NodeId}, ∀ m ∈ t.lifted siblings clause, t.Takable n m := fun m =>
      takable_of_mem_lifted (.inr (.inr (.inl hempty.1)))
    split at hg
    · exact hmember g hg
    · split at hg
      · exact (List.mem_append.mp hg).elim (hmember g) (hclause g)
      · rename_i word hword
        have hk : t.kind word = .fromWord := by simpa using List.find?_some hword
        rcases List.mem_append.mp hg with hg | hg
        · exact (List.mem_append.mp hg).elim (hmember g) (hclause g)
        · exact takable_of_mem_lifted (.inr (.inr (.inr hk))) hg
  · exact hmember g hg

/-- A call takes out its subject, commas, and clauses of imports with the word `from`. -/
theorem takable_of_mem_exchanged {call : Surgery} {g : NodeId} (hg : g ∈ (t.exchanged call).1) :
    t.Takable call.subject g := by
  unfold exchanged at hg
  split at hg
  · exact absurd hg List.not_mem_nil
  · cases call with
    | detach n => exact takable_of_mem_lifted (.inl rfl) hg
    | removeStatement n =>
      dsimp only at hg
      split_ifs at hg
      · exact takable_of_mem_lifted (.inl rfl) hg
      · exact .inl (List.mem_singleton.mp hg)
      · exact absurd hg List.not_mem_nil
    | removeListMember n => exact takable_of_mem_takenWithMember hg
    | replace old fresh => exact .inl (List.mem_singleton.mp hg)

theorem Shorn.operates (h : Shorn t u gone) : Operates t u (gone, []) where
  linked := h.linked
  reaches_iff m := by
    rw [h.reaches_iff]
    simp

theorem Regrafts.operates (h : Regrafts t u p gone new) (ht : t.Linked) (hp : t.Reaches t.root p) :
    Operates t u (gone, new) where
  linked := h.linked ht hp
  reaches_iff _ := h.reaches_iff ht hp

namespace Linked

variable (ht : t.Linked) (hp : t.Reaches t.root p) (hn : n ∈ t.children p)

include ht hp hn

theorem lifts_detach (h : t.detach n = .ok u) : Lifts t u p n :=
  lifts_of_detach (ht.parent_eq p n hp hn) (ht.nodup hp) h

theorem regrafts_replace {fresh : Leaf} (h : (t.add fresh.node).2.replace n t.size = .ok u) :
    Regrafts t u p [n] [t.size] :=
  regrafts_of_replace fresh.childless fresh.stands (ht.parent_eq p n hp hn) (ht.nodup hp) (ht.stored p) h

theorem operates_removeStatement (h : t.removeStatement n = .ok (some u)) :
    Operates t u (t.exchanged (.removeStatement n)) := by
  have hparent := ht.parent_eq p n hp hn
  simp only [Tree.removeStatement, hparent] at h
  simp only [exchanged, Surgery.subject, hparent]
  split_ifs at h ⊢ with hlist hslot
  · exact (ht.lifts_detach hp hn (ok_of_map_some h)).operates ht hp
  · have hreplace : (t.add _).2.replace n t.size = .ok u := ok_of_map_some h
    exact (regrafts_of_replace rfl rfl hparent (ht.nodup hp) (ht.stored p) hreplace).operates ht hp
  · cases h

theorem exchanged_removeStatement (h : t.removeStatement n = .ok none) :
    t.exchanged (.removeStatement n) = ([], []) := by
  have hparent := ht.parent_eq p n hp hn
  simp only [Tree.removeStatement, hparent] at h
  simp only [exchanged, Surgery.subject, hparent]
  split_ifs at h ⊢ with hlist hslot
  · cases hd : t.detach n <;> rw [hd] at h <;> cases h
  · cases hr : (t.addEmptyStatement n).2.replace n (t.addEmptyStatement n).1 <;> rw [hr] at h <;> cases h
  · rfl

end Linked
end Tree

/-! ## Calls -/

namespace Job

theorem ends_detach_tree (w : Workspace) (n : NodeId) :
    (detach n).Ends w (fun _ w' => w.tree.detach n = .ok w'.tree) Whatever := by
  rw [detach, ends_bind, ends_get]
  cases hok : w.tree.detach n with
  | error e => trivial
  | ok t => exact congrArg Except.ok (tree_settle w t n).symm

/-- The root cannot be detached, and any other node of a linked tree stands in a list. -/
theorem ends_detach_lifts (ht : w.tree.Linked) (hn : w.tree.Reaches w.tree.root n) : (detach n).Ends w
    (fun _ w' => ∃ p, w.tree.Reaches w.tree.root p ∧ n ∈ w.tree.children p ∧ Lifts w.tree w'.tree p n) Whatever := by
  refine (ends_detach_tree w n).imp fun _ w' hok => ?_
  have hne : n ≠ w.tree.root := by
    rintro rfl
    obtain ⟨p, _, hp, _⟩ := parent_of_detach hok
    rw [ht.root_parent] at hp
    cases hp
  obtain ⟨p, hp, hmem, _⟩ := ht.exists_lister hn hne
  exact ⟨p, hp, hmem, ht.lifts_detach hp hmem hok⟩

theorem ends_replace_tree (w : Workspace) (old new : NodeId) :
    (replace old new).Ends w (fun _ w' => w.tree.replace old new = .ok w'.tree) Whatever := by
  rw [replace, ends_bind, ends_get]
  cases hok : w.tree.replace old new with
  | error e => trivial
  | ok t => exact congrArg Except.ok (tree_settle w t old).symm

theorem ends_removeStatement_tree (w : Workspace) (n : NodeId) : (removeStatement n).Ends w (fun _ w' =>
    w.tree.removeStatement n = .ok (some w'.tree) ∨ w.tree.removeStatement n = .ok none ∧ w' = w) Whatever := by
  rw [removeStatement, ends_bind, ends_get]
  cases hok : w.tree.removeStatement n with
  | error e => trivial
  | ok result =>
    cases result with
    | none => exact .inr ⟨rfl, rfl⟩
    | some t => exact .inl (congrArg (Except.ok ∘ some) (tree_settle w t n).symm)

theorem ends_removeListMember_shorn (ht : w.tree.Linked) (hp : w.tree.Reaches w.tree.root p)
    (hn : n ∈ w.tree.children p) : (removeListMember n).Ends w
      (fun _ w' => Shorn w.tree w'.tree (w.tree.takenWithMember n p)) Whatever := by
  rw [removeListMember, ends_bind, ends_get, ends_bind, ht.parent_eq p n hp hn]
  refine (ends_detach_lifts ht (hp.child hn)).imp fun _ w₁ h₁ => ?_
  obtain ⟨q, _, hq, h₁⟩ := h₁
  obtain rfl := ht.only p q n hp hn hq
  have hs₁ := h₁.shorn ht hp
  have hnamed : w₁.tree.namedChildren q =
      ((w.tree.children q).filter (· ∉ w.tree.lifted (w.tree.children q) n)).filter
        fun c => (w.tree.node c).named := by
    rw [namedChildren, h₁.children_eq]
    simp only [h₁.named_eq]
  simp only [ends_bind, ends_get, h₁.kind_eq, hnamed, takenWithMember]
  split
  · rw [ends_bind]
    refine (ends_detach_lifts hs₁.linked (h₁.reaches_lister ht hp)).imp fun _ w₂ h₂ => ?_
    obtain ⟨s, hs, hmem, h₂⟩ := h₂
    have hs₂ := hs₁.trans (h₂.shorn hs₁.linked hs)
    have hparent : w₁.tree.parent q = some s := hs₁.linked.parent_eq s q hs hmem
    -- the statement that lists the clause is as it was
    have hsq : s ≠ q := fun h => hs₁.linked.not_reaches_of_child hs hmem (h ▸ .refl)
    have hstays : q ∉ w.tree.lifted (w.tree.children q) n := fun hg =>
      ht.not_reaches_of_child hp (h₁.listed q hg) .refl
    have hparent₀ : w.tree.parent q = some s := by
      rw [← hparent, h₁.parent_eq, if_neg hstays, if_neg List.not_mem_nil]
    have hlifted : w₁.tree.lifted (w.tree.children s) q = w.tree.lifted (w.tree.children s) q :=
      lifted_congr h₁.kind_eq
    have hkind : ∀ m, w₂.tree.kind m = w.tree.kind m := fun m => (h₂.kind_eq m).trans (h₁.kind_eq m)
    have hchildren := h₂.children_eq
    rw [h₁.children_other s hsq, hlifted] at hs₂ hchildren
    rw [hparent, hparent₀]
    simp only [ends_bind, ends_get, hkind, hchildren]
    cases hword : ((w.tree.children s).filter (· ∉ w.tree.lifted (w.tree.children s) q)).find?
        fun k => w.tree.kind k = .fromWord with
    | none => exact hs₂
    | some word =>
      have hmem₂ : word ∈ w₂.tree.children s := hchildren ▸ List.mem_of_find?_eq_some hword
      have hs' := h₂.reaches_lister hs₁.linked hs
      simp only [ends_bind]
      refine (ends_detach_lifts hs₂.linked (hs'.child hmem₂)).imp fun _ w₃ h₃ => ?_
      obtain ⟨s', _, hs'', h₃⟩ := h₃
      obtain rfl := hs₂.linked.only s s' word hs' hmem₂ hs''
      have hshorn := h₃.shorn hs₂.linked hs'
      rw [lifted_congr hkind, hchildren] at hshorn
      exact hs₂.trans hshorn
  · exact hs₁

/-- What a call that returns does to a linked tree. -/
theorem ends_perform_operates (ht : w.tree.Linked) (call : Surgery) (hn : w.tree.Reaches w.tree.root call.subject)
    (hne : call.subject ≠ w.tree.root) : call.perform.Ends w
      (fun _ w' => Operates w.tree w'.tree (w.tree.exchanged call)) Whatever := by
  obtain ⟨p, hp, hmem, hparent⟩ := ht.exists_lister hn hne
  cases call with
  | detach n =>
    simp only [exchanged, hparent, Surgery.perform, ends_bind, ends_pure]
    refine (ends_detach_tree w n).imp fun _ w' hok => ?_
    exact (ht.lifts_detach hp hmem hok).operates ht hp
  | removeStatement n =>
    simp only [Surgery.perform, ends_bind, ends_pure]
    refine (ends_removeStatement_tree w n).imp fun _ w' h => ?_
    rcases h with hok | ⟨hok, rfl⟩
    · exact ht.operates_removeStatement hp hmem hok
    · rw [ht.exchanged_removeStatement (n := n) hp hmem hok]
      exact ⟨ht, by simp⟩
  | removeListMember n =>
    simp only [exchanged, hparent, Surgery.perform, ends_bind, ends_pure]
    exact (ends_removeListMember_shorn ht hp hmem).imp fun _ _ h => h.operates
  | replace old fresh =>
    simp only [exchanged, hparent, Surgery.perform, ends_bind, ends_get, ends_modify, ends_pure]
    refine (ends_replace_tree _ old w.tree.size).imp fun _ w' hok => ?_
    exact (ht.regrafts_replace hp hmem hok).operates ht hp

theorem ends_perform_consistent (ht : w.tree.Consistent) (call : Surgery)
    (hn : w.tree.Reaches w.tree.root call.subject) (hne : call.subject ≠ w.tree.root) :
    call.perform.Ends w (fun _ w' => w'.tree.Consistent) Whatever := by
  have hedits := lasting_edited w.tree
  have hkept : ∀ {α : Type} {j : Job α}, Preserves (fun u => Edited w.tree u.tree) j →
      j.Ends w (fun _ w' => w'.tree.Consistent) Whatever := by
    intro α j hj
    exact (hj w .refl).mono (fun _ _ h => (h.remains ht).consistent) fun _ _ _ => trivial
  cases call with
  | detach n =>
    simp only [Surgery.perform, ends_bind, ends_pure]
    exact hkept (hedits.detached n)
  | removeStatement n =>
    simp only [Surgery.perform, ends_bind, ends_pure]
    exact hkept (hedits.statement n)
  | removeListMember n =>
    simp only [Surgery.perform, ends_bind, ends_pure]
    exact hkept (hedits.listMember n)
  | replace old fresh =>
    simp only [Surgery.perform, ends_bind, ends_get, ends_modify, ends_pure]
    refine (ends_replace_tree _ old w.tree.size).imp fun _ w' hok => ?_
    obtain ⟨p, hp, hmem, _⟩ := ht.linked.exists_lister hn hne
    exact (ht.linked.regrafts_replace hp hmem hok).consistent ht

end Job

theorem Operated.consistent (h : Operated w w') (ht : w.tree.Consistent) : w'.tree.Consistent := by
  induction h with
  | refl => exact ht
  | @step u v call _ hn hne hok ih => exact (Job.ends_perform_consistent ih call hn hne).of_ok hok

/-- A tree copied from a parse is linked. A call that edits a linked tree and returns leaves it linked. What could be
reached from the root still can, but for the subtrees of what the call takes out, which is its subject, commas, and the
clause of an import with the word `from`; and the leaf that it puts in can be reached too. After any such calls on a
tree copied from a parse, a node is in the tree exactly if the walk yields it. -/
theorem surgery_keeps_links (w : Workspace) :
    (∀ o bytes path, Tree.ofOutline o bytes path = .ok w.tree → w.tree.Linked) ∧
      (∀ call w', w.tree.Linked → w.tree.Reaches w.tree.root call.subject → call.subject ≠ w.tree.root →
        call.perform w = .ok () w' → w'.tree.Linked ∧
          (∀ g ∈ (w.tree.exchanged call).1, w.tree.Takable call.subject g) ∧
          ∀ m, w'.tree.Reaches w'.tree.root m ↔
            w.tree.Reaches w.tree.root m ∧ (∀ g ∈ (w.tree.exchanged call).1, ¬ w.tree.Reaches g m) ∨
              m ∈ (w.tree.exchanged call).2) ∧
      ∀ o bytes path u, Tree.ofOutline o bytes path = .ok w.tree → Operated w u → u.tree.Linked ∧ ∀ n,
        (u.tree.contains n = true ↔ n ∈ u.tree.walk) ∧ (n ∈ u.tree.walk ↔ u.tree.Reaches u.tree.root n) := by
  refine ⟨?_, ?_, ?_⟩
  · intro o bytes path ho
    exact (consistent_ofOutline ho).linked
  · intro call w' ht hn hne hok
    have h := (Job.ends_perform_operates ht call hn hne).of_ok hok
    exact ⟨h.linked, fun g => takable_of_mem_exchanged, h.reaches_iff⟩
  · intro o bytes path u ho hu
    have hcons := hu.consistent (consistent_ofOutline ho)
    refine ⟨hcons.linked, fun n => ?_⟩
    rw [mem_walk_iff hcons, hcons.reaches_iff]
    exact ⟨contains_iff_below hcons, .rfl⟩

/-- Once the namespace import is detached, the default import is the last member: the clause and the word `from` leave
with it. -/
theorem surgery_keeps_links_mixedImport : ∃ u v, (Surgery.detach 6).perform { tree := mixedTree } = .ok () u ∧
    (Surgery.removeListMember 4).perform u = .ok () v ∧ mixedTree.Linked ∧ v.tree.Linked ∧
    (∀ m, v.tree.Reaches v.tree.root m ↔ u.tree.Reaches u.tree.root m ∧ ∀ g ∈ [4, 3, 10], ¬ u.tree.Reaches g m) ∧
    v.tree.walk = [0, 1, 2, 11, 12, 13, 14, 15] ∧ v.tree.contains 10 = false := by
  have hout : answer? ((Surgery.detach 6).perform { tree := mixedTree }) (fun _ u =>
      (decide (u.tree.root = 0 ∧ 1 ∈ u.tree.children 0 ∧ 3 ∈ u.tree.children 1 ∧ 4 ∈ u.tree.children 3),
        u.tree.exchanged (.removeListMember 4),
        answer? ((Surgery.removeListMember 4).perform u) fun _ v => v.tree.walk)) =
      some (true, ([4, 3, 10], []), some [0, 1, 2, 11, 12, 13, 14, 15]) := by decide +kernel
  obtain ⟨_, u, hu, hout⟩ := answer?_eq_some.mp hout
  simp only [Prod.mk.injEq, decide_eq_true_eq] at hout
  obtain ⟨⟨hroot, h₁, h₃, h₄⟩, hexchanged, hout⟩ := hout
  obtain ⟨_, v, hv, hwalk⟩ := answer?_eq_some.mp hout
  have hcopy : Tree.ofOutline mixedImport mixedText.toUTF8 none = .ok mixedTree :=
    ofOutline_eq_ok (by decide +kernel) none
  obtain ⟨hbuilt, hcall, hstates⟩ := surgery_keeps_links { tree := mixedTree }
  have hlinked := hbuilt _ _ _ hcopy
  have hway : mixedTree.Reaches mixedTree.root 6 :=
    .child (.child (.child .refl (show 1 ∈ _ by decide +kernel)) (show 3 ∈ _ by decide +kernel)) (by decide +kernel)
  have hway' : u.tree.Reaches u.tree.root 4 := by
    rw [hroot]
    exact .child (.child (.child .refl h₁) h₃) h₄
  have hne : (4 : NodeId) ≠ u.tree.root := by
    rw [hroot]
    decide
  have hu' := (hcall (.detach 6) u hlinked hway (by decide +kernel) hu).1
  obtain ⟨hv', _, hreach⟩ := (surgery_keeps_links u).2.1 (.removeListMember 4) v hu' hway' hne hv
  have hfirst : Operated { tree := mixedTree } u :=
    @Operated.step _ _ _ (.detach 6) .refl hway (by decide +kernel) hu
  have hoperated : Operated { tree := mixedTree } v := @Operated.step _ _ _ (.removeListMember 4) hfirst hway' hne hv
  refine ⟨u, v, hu, hv, hlinked, hv', ?_, hwalk, ?_⟩
  · simpa [hexchanged] using hreach
  · have hiff := ((hstates _ _ _ v hcopy hoperated).2 10).1
    rw [hwalk] at hiff
    rw [Bool.eq_false_iff]
    intro hin
    exact absurd (hiff.mp hin) (by decide)

end DeadCode
