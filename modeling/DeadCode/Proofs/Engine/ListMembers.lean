import DeadCode.Proofs.Engine.Removals
import DeadCode.Proofs.Names.Checks
import DeadCode.Proofs.Tree.CommaList

/-!
Taking members out of a comma-separated list one after the other. As long as a member is left, the list is one
afterwards exactly if each member had a comma directly beside it when its turn came
(`commaList_removeListMembers`); in a list without comments each has (`commaList_removeListMembers_plain`).
-/

namespace DeadCode

open DeadCode.Tree Workspace

variable {w : Workspace} {p n : NodeId} {trailing : Bool}

namespace Job

def removeListMembers (ns : List NodeId) : Job Unit := ns.forM fun n => do
  let _ ← removeListMember n

/-- A member that is not the last leaves alone. -/
theorem ends_removeListMember_left (ht : w.tree.Consistent) (hn : n ∈ w.tree.members p)
    (hleft : ∃ m ∈ w.tree.members p, m ≠ n) : (removeListMember n).Ends w
      (fun _ w' => ∃ t, w.tree.detach n = .ok t ∧ w' = w.settle t n) Never := by
  have hp := (ht.mem_children p n).mp (mem_members.mp hn).1
  obtain ⟨t, gone, hok, hd⟩ := detach_eq_ok ht hp
  have hnamed : t.namedChildren p ≠ [] := by
    obtain ⟨m, hm, hne⟩ := hleft
    have hm' : m ∈ t.members p := by
      rw [members_detach ht hp hok]
      exact List.mem_filter.mpr ⟨hm, by simpa using hne⟩
    exact List.ne_nil_of_mem (named_of_mem_members hm')
  rw [removeListMember, ends_bind, ends_get, hp, ends_bind, detach, ends_bind, ends_get, hok]
  simp only [ends_bind, ends_modify, ends_pure, ends_get, tree_settle, hnamed, and_false, if_false]
  exact ⟨t, rfl, rfl⟩

/-- One removal: the list loses the member and no other. -/
theorem ends_removeListMember_members (ht : w.tree.Consistent) (hn : n ∈ w.tree.members p)
    (hleft : ∃ m ∈ w.tree.members p, m ≠ n) : (removeListMember n).Ends w
      (fun _ w' => w.tree.detach n = .ok w'.tree ∧ w'.tree.Consistent ∧
        w'.tree.members p = (w.tree.members p).filter (· ≠ n)) Never := by
  have hp := (ht.mem_children p n).mp (mem_members.mp hn).1
  refine (ends_removeListMember_left ht hn hleft).imp fun _ w' h => ?_
  obtain ⟨t, hok, rfl⟩ := h
  rw [tree_settle]
  obtain ⟨gone, hd⟩ := detached_of_parent ht hp hok
  exact ⟨hok, hd.toCut.consistent ht, members_detach ht hp hok⟩

theorem removeListMembers_cons (n : NodeId) (ns : List NodeId) :
    removeListMembers (n :: ns) = removeListMember n >>= fun _ => removeListMembers ns := by
  simp [removeListMembers]

/-- The members to come are still there, and so is one that stays. -/
theorem members_remaining {t t' : Tree} {ns : List NodeId} (hns : ∀ m ∈ n :: ns, m ∈ t.members p)
    (hnd : (n :: ns).Nodup) (hleft : ∃ m ∈ t.members p, m ∉ n :: ns)
    (hm : t'.members p = (t.members p).filter (· ≠ n)) :
    (∀ m ∈ ns, m ∈ t'.members p) ∧ ns.Nodup ∧ ∃ m ∈ t'.members p, m ∉ ns := by
  obtain ⟨hnotin, hnd⟩ := List.nodup_cons.mp hnd
  obtain ⟨k, hk, hkns⟩ := hleft
  obtain ⟨hkn, hkns⟩ := not_or.mp (List.mem_cons.not.mp hkns)
  rw [hm]
  refine ⟨fun m hmem => List.mem_filter.mpr ⟨hns m (List.mem_cons_of_mem n hmem), ?_⟩, hnd, k,
    List.mem_filter.mpr ⟨hk, by simpa using hkn⟩, hkns⟩
  simpa using fun he : m = n => hnotin (he ▸ hmem)

/-- A list with a comma too many keeps it. -/
theorem ends_removeListMembers_overfull (ns : List NodeId) : ∀ {w : Workspace}, w.tree.Consistent →
    (∀ n ∈ ns, n ∈ w.tree.members p) → ns.Nodup → (∃ m ∈ w.tree.members p, m ∉ ns) →
    w.tree.Overfull p trailing →
    (removeListMembers ns).Ends w (fun _ w' => w'.tree.Overfull p trailing) Never := by
  induction ns with
  | nil => exact fun _ _ _ _ h => h
  | cons n ns ih =>
    intro w ht hns hnd hleft hover
    have hn := hns n List.mem_cons_self
    have hother : ∃ m ∈ w.tree.members p, m ≠ n :=
      hleft.imp fun m hm => ⟨hm.1, fun he => hm.2 (he ▸ List.mem_cons_self)⟩
    rw [removeListMembers_cons, ends_bind]
    refine (ends_removeListMember_members ht hn hother).imp fun _ w₁ h₁ => ?_
    obtain ⟨hok, ht₁, hm⟩ := h₁
    obtain ⟨hns', hnd', hleft'⟩ := members_remaining hns hnd hleft hm
    exact ih ht₁ hns' hnd' hleft' (hover.detach ht hn hok)

/-- Each member has a comma directly beside it when its turn comes. -/
def BesideCommas (ns : List NodeId) (w : Workspace) : Prop :=
  ∀ earlier n later u, ns = earlier ++ n :: later → removeListMembers earlier w = .ok () u →
    u.tree.BesideComma n

theorem besideCommas_cons {ns : List NodeId} {m : NodeId} {w₁ : Workspace}
    (hok : removeListMember n w = .ok m w₁) :
    BesideCommas (n :: ns) w ↔ w.tree.BesideComma n ∧ BesideCommas ns w₁ := by
  have hcons : ∀ ms, removeListMembers (n :: ms) w = removeListMembers ms w₁ := fun ms => by
    rw [removeListMembers_cons, bind_of_ok hok]
  constructor
  · refine fun h => ⟨h [] n ns w rfl rfl, fun earlier k later u he hu => ?_⟩
    exact h (n :: earlier) k later u (by rw [he]; rfl) ((hcons earlier).trans hu)
  · rintro ⟨hn, hns⟩ earlier k later u he hu
    cases earlier with
    | nil =>
      obtain ⟨rfl, _⟩ := List.cons.inj he
      obtain rfl : w = u := by
        have : (EStateM.Result.ok () w : EStateM.Result _ _ _) = .ok () u := hu
        cases this
        rfl
      exact hn
    | cons b earlier =>
      obtain ⟨rfl, rfl⟩ := List.cons.inj he
      exact hns earlier k later u rfl ((hcons earlier).symm.trans hu)

theorem ends_removeListMembers (ns : List NodeId) : ∀ {w : Workspace}, w.tree.Consistent →
    w.tree.CommaList p trailing → (∀ n ∈ ns, n ∈ w.tree.members p) → ns.Nodup →
    (∃ m ∈ w.tree.members p, m ∉ ns) →
    (removeListMembers ns).Ends w (fun _ w' => (BesideCommas ns w → w'.tree.CommaList p trailing) ∧
      (¬ BesideCommas ns w → w'.tree.Overfull p trailing)) Never := by
  induction ns with
  | nil =>
    intro w _ hl _ _ _
    exact ⟨fun _ => hl, fun h => absurd (fun earlier n later u he => absurd he (by simp)) h⟩
  | cons n ns ih =>
    intro w ht hl hns hnd hleft
    have hn := hns n List.mem_cons_self
    have hother : ∃ m ∈ w.tree.members p, m ≠ n :=
      hleft.imp fun m hm => ⟨hm.1, fun he => hm.2 (he ▸ List.mem_cons_self)⟩
    obtain ⟨m, w₁, hjob, hok, ht₁, hm⟩ := (ends_removeListMember_members ht hn hother).returns
    obtain ⟨hns', hnd', hleft'⟩ := members_remaining hns hnd hleft hm
    have hrun : ∀ {Q : Unit → Workspace → Prop}, (removeListMembers ns).Ends w₁ Q Never →
        (removeListMembers (n :: ns)).Ends w Q Never := fun h => by
      rw [removeListMembers_cons, ends_bind, Ends, hjob]
      exact h
    by_cases hb : w.tree.BesideComma n
    · have hl₁ : w₁.tree.CommaList p trailing := by
        obtain ⟨k, hk, _⟩ := hleft'
        exact hl.detach ht hn (List.ne_nil_of_mem hk) hok hb
      refine hrun ((ih ht₁ hl₁ hns' hnd' hleft').imp fun _ w' h => ?_)
      rw [besideCommas_cons hjob]
      simpa [hb] using h
    · have hover := hl.overfull_detach ht hn hok hb
      refine hrun ((ends_removeListMembers_overfull ns ht₁ hns' hnd' hleft' hover).imp fun _ w' h => ?_)
      rw [besideCommas_cons hjob]
      simpa [hb] using h

/-- Members are taken out of a comma-separated list until only some are left. What is left is a list without a
new trailing comma exactly if each member had a comma directly beside it when its turn came. -/
theorem commaList_removeListMembers (w : Workspace) (ht : w.tree.Consistent)
    (hl : w.tree.CommaList p trailing) (ns : List NodeId) (hns : ∀ n ∈ ns, n ∈ w.tree.members p)
    (hnd : ns.Nodup) (hleft : ∃ m ∈ w.tree.members p, m ∉ ns) :
    ∃ w', removeListMembers ns w = .ok () w' ∧
      ((∃ trailing', (trailing' = true → trailing = true) ∧ w'.tree.CommaList p trailing') ↔
        BesideCommas ns w) := by
  obtain ⟨_, w', hrun, hlist, hover⟩ := (ends_removeListMembers ns ht hl hns hnd hleft).returns
  refine ⟨w', hrun, fun hcomma => ?_, fun h => ⟨trailing, id, hlist h⟩⟩
  obtain ⟨trailing', hle, h⟩ := hcomma
  by_contra hno
  exact h.not_overfull hle (hover hno)

/-- The list `let a /* */, b;`. -/
def commentedList : Tree where
  nodes := #[
    { kind := .program, children := [1] },
    { kind := .lexicalDeclaration, children := [2, 3, 5, 6, 7, 9], parent := some 0 },
    { kind := .other "let", named := false, field := some .kind, text := "let", parent := some 1 },
    { kind := .variableDeclarator, children := [4], parent := some 1 },
    { kind := .identifier, field := some .name, text := "a", parent := some 3 },
    { kind := .comment, text := "/* */", parent := some 1 },
    { kind := .comma, named := false, text := ",", parent := some 1 },
    { kind := .variableDeclarator, children := [8], parent := some 1 },
    { kind := .identifier, field := some .name, text := "b", parent := some 7 },
    { kind := .other ";", named := false, text := ";", parent := some 1 }]

/-- Without `a` the comma behind the comment comes first. -/
theorem commaList_removeListMembers_commentedList : ∃ w',
    removeListMembers [3] { tree := commentedList } = .ok () w' ∧ w'.tree.children 1 = [2, 5, 6, 7, 9] ∧
      ¬ ∃ trailing, (trailing = true → false = true) ∧ w'.tree.CommaList 1 trailing := by
  have ht : commentedList.Consistent := by decide +kernel
  have hl : commentedList.CommaList 1 false := ⟨1, [.comma, .member, .token], rfl, .next (.close 1)⟩
  obtain ⟨w', hrun, hiff⟩ := commaList_removeListMembers { tree := commentedList } ht hl [3]
    (by decide) (by decide) ⟨7, by decide, by decide⟩
  have hout : answer? (removeListMembers [3] { tree := commentedList }) (fun _ w' => w'.tree.children 1) =
      some [2, 5, 6, 7, 9] := by decide +kernel
  rw [hrun] at hout
  refine ⟨w', hrun, Option.some.inj hout, fun h => ?_⟩
  have hbeside : commentedList.BesideComma 3 := hiff.mp h [] 3 [] _ rfl rfl
  obtain ⟨c, hk, hc⟩ := (besideComma_iff ht (show commentedList.children 1 = [2] ++ 3 :: [5, 6, 7, 9] from rfl)).mp hbeside
  rcases hc with hc | hc
  · obtain rfl := Option.some.inj hc
    exact absurd hk (by decide)
  · obtain rfl := Option.some.inj hc
    exact absurd hk (by decide)

/-- Without comments in a list each member has its comma. -/
theorem besideCommas_plain (ns : List NodeId) : ∀ {w : Workspace}, w.tree.Consistent →
    w.tree.CommaList p trailing → (∀ c ∈ w.tree.children p, w.tree.kind c ≠ .comment) →
    (∀ n ∈ ns, n ∈ w.tree.members p) → ns.Nodup → (∃ m ∈ w.tree.members p, m ∉ ns) →
    BesideCommas ns w := by
  induction ns with
  | nil => exact fun _ _ _ _ _ _ earlier n later u he => absurd he (by simp)
  | cons n ns ih =>
    intro w ht hl hplain hns hnd hleft
    have hn := hns n List.mem_cons_self
    have hother : ∃ m ∈ w.tree.members p, m ≠ n :=
      hleft.imp fun m hm => ⟨hm.1, fun he => hm.2 (he ▸ List.mem_cons_self)⟩
    obtain ⟨m, w₁, hjob, hok, ht₁, hm⟩ := (ends_removeListMember_members ht hn hother).returns
    obtain ⟨hns', hnd', hleft'⟩ := members_remaining hns hnd hleft hm
    have hb := hl.besideComma ht hn hother hplain
    have hl₁ : w₁.tree.CommaList p trailing := by
      obtain ⟨k, hk, _⟩ := hleft'
      exact hl.detach ht hn (List.ne_nil_of_mem hk) hok hb
    have hplain₁ : ∀ c ∈ w₁.tree.children p, w₁.tree.kind c ≠ .comment := by
      obtain ⟨gone, hd⟩ := detached_of_parent ht ((ht.mem_children p n).mp (mem_members.mp hn).1) hok
      intro c hc
      rw [hd.children_cut] at hc
      have hc := (List.mem_filter.mp hc).1
      rw [hd.kind_eq c (lt_size_of_parent ((ht.mem_children p c).mp hc))]
      exact hplain c hc
    exact (besideCommas_cons hjob).mpr ⟨hb, ih ht₁ hl₁ hplain₁ hns' hnd' hleft'⟩

/-- A list without comments stays a list. -/
theorem commaList_removeListMembers_plain (ht : w.tree.Consistent) (hl : w.tree.CommaList p trailing)
    (hplain : ∀ c ∈ w.tree.children p, w.tree.kind c ≠ .comment) (ns : List NodeId)
    (hns : ∀ n ∈ ns, n ∈ w.tree.members p) (hnd : ns.Nodup) (hleft : ∃ m ∈ w.tree.members p, m ∉ ns) :
    ∃ w', removeListMembers ns w = .ok () w' ∧ w'.tree.CommaList p trailing := by
  obtain ⟨_, w', hrun, hlist, _⟩ := (ends_removeListMembers ns ht hl hns hnd hleft).returns
  exact ⟨w', hrun, hlist (besideCommas_plain ns ht hl hplain hns hnd hleft)⟩

end Job
end DeadCode
