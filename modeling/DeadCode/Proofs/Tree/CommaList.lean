import DeadCode.Proofs.Tree.Edits

/-!
Comma-separated lists among the children of a node: the declarators of a declaration, the specifiers of named
imports, the parts of an import clause. Comments may stand anywhere. Taking a member out looks at its two
neighbours only, so the list stays in order exactly if one of them is a comma (`CommaRow.leave`,
`CommaRow.count_comma`).
-/

namespace DeadCode

/-- What a child is to a list. -/
inductive Mark where
  | member | comma | token
  deriving DecidableEq

/-- What stands after a member: a comma and a member, any number of times, then perhaps a trailing comma, then
other tokens. -/
inductive AfterMember (trailing : Bool) : List Mark → Prop
  | close (k : Nat) : AfterMember trailing ((if trailing then [.comma] else []) ++ List.replicate k .token)
  | next {ms : List Mark} : AfterMember trailing ms → AfterMember trailing (.comma :: .member :: ms)

/-- Members with a comma between any two, in between other tokens. -/
def CommaRow (trailing : Bool) (ms : List Mark) : Prop :=
  ∃ k rest, ms = List.replicate k .token ++ .member :: rest ∧ AfterMember trailing rest

variable {trailing : Bool} {as bs ms : List Mark}

/-! ## Rows -/

theorem AfterMember.member_not_mem_close (trailing : Bool) (k : Nat) :
    Mark.member ∉ (if trailing then [.comma] else []) ++ List.replicate k .token := by
  cases trailing <;> simp [List.mem_replicate]

theorem AfterMember.member_of_comma (h : AfterMember trailing (.comma :: ms)) (hm : .member ∈ ms) :
    ∃ rest, ms = .member :: rest ∧ AfterMember trailing rest := by
  generalize hl : Mark.comma :: ms = l at h
  cases h with
  | close k =>
    have : Mark.member ∈ (if trailing then [.comma] else []) ++ List.replicate k .token :=
      hl ▸ List.mem_cons_of_mem _ hm
    exact absurd this (member_not_mem_close trailing k)
  | next h =>
    obtain ⟨_, rfl⟩ := List.cons.inj hl
    exact ⟨_, rfl, h⟩

/-- Behind the first member there is a comma before each member. -/
theorem AfterMember.comma_before (h : AfterMember trailing (as ++ .member :: bs)) :
    ∃ as', as = as' ++ [.comma] := by
  generalize hl : as ++ .member :: bs = l at h
  induction h generalizing as with
  | close k => exact absurd (hl ▸ by simp) (member_not_mem_close trailing k)
  | @next ms h ih =>
    match as with
    | [] => exact absurd (List.cons.inj hl).1 (by decide)
    | [a] => exact ⟨[], by rw [(List.cons.inj hl).1]; rfl⟩
    | a :: b :: as =>
      obtain ⟨as', rfl⟩ := ih (List.cons.inj (List.cons.inj hl).2).2
      exact ⟨a :: b :: as', rfl⟩

/-- A comma and the member behind it can leave. -/
theorem AfterMember.leave (h : AfterMember trailing (as ++ .comma :: .member :: bs)) :
    AfterMember trailing (as ++ bs) := by
  generalize hl : as ++ .comma :: .member :: bs = l at h
  induction h generalizing as with
  | close k => exact absurd (hl ▸ by simp) (member_not_mem_close trailing k)
  | @next ms h ih =>
    match as with
    | [] =>
      obtain rfl := (List.cons.inj (List.cons.inj hl).2).2
      exact h
    | [a] => exact absurd (List.cons.inj (List.cons.inj hl).2).1 (by decide)
    | a :: b :: as =>
      obtain ⟨ha, hl⟩ := List.cons.inj hl
      obtain ⟨hb, hl⟩ := List.cons.inj hl
      rw [ha, hb]
      exact .next (ih hl)

/-- A row cut at one of its members: it is the first one, or stands behind a comma. -/
theorem CommaRow.at_member (h : CommaRow trailing (as ++ .member :: bs)) :
    (∃ k, as = List.replicate k .token ∧ AfterMember trailing bs) ∨
      ∃ k as', as = List.replicate k .token ++ .member :: (as' ++ [.comma]) ∧
        AfterMember trailing (as' ++ .comma :: .member :: bs) := by
  obtain ⟨k, rest, he, hrest⟩ := h
  rcases List.append_eq_append_iff.mp he with ⟨cs, hcs, hms⟩ | ⟨cs, rfl, hms⟩
  · cases cs with
    | nil =>
      obtain ⟨_, rfl⟩ := List.cons.inj hms
      exact .inl ⟨k, by simpa using hcs.symm, hrest⟩
    | cons c cs =>
      obtain ⟨rfl, _⟩ := List.cons.inj hms
      have : Mark.member ∈ List.replicate k Mark.token := hcs ▸ by simp
      exact absurd this (by simp [List.mem_replicate])
  · cases cs with
    | nil =>
      obtain ⟨_, rfl⟩ := List.cons.inj hms
      exact .inl ⟨k, by simp, hrest⟩
    | cons c cs =>
      obtain ⟨rfl, rfl⟩ := List.cons.inj hms
      obtain ⟨as', rfl⟩ := hrest.comma_before
      exact .inr ⟨k, as', rfl, by simpa using hrest⟩

/-- A member and a comma beside it can leave as long as a member is left. -/
theorem CommaRow.leave (h : CommaRow trailing (as ++ .member :: .comma :: bs) ∨
    CommaRow trailing (as ++ .comma :: .member :: bs)) (hm : .member ∈ as ++ bs) :
    CommaRow trailing (as ++ bs) := by
  rcases h with h | h
  · rcases h.at_member with ⟨k, rfl, hbs⟩ | ⟨k, as', rfl, hrest⟩
    · have hmem : Mark.member ∈ bs := by simpa [List.mem_replicate] using hm
      obtain ⟨rest, rfl, hrest⟩ := hbs.member_of_comma hmem
      exact ⟨k, rest, rfl, hrest⟩
    · exact ⟨k, as' ++ .comma :: bs, by simp, hrest.leave⟩
  · rw [List.append_cons] at h
    rcases h.at_member with ⟨k, hk, _⟩ | ⟨k, as', has, hrest⟩
    · have : Mark.comma ∈ List.replicate k Mark.token := hk ▸ by simp
      exact absurd this (by simp [List.mem_replicate])
    · rw [← List.cons_append, ← List.append_assoc] at has
      obtain ⟨rfl, _⟩ := List.append_inj' has rfl
      exact ⟨k, as' ++ bs, by simp, hrest.leave⟩

/-- Every member of a row of two or more has a comma beside it. -/
theorem CommaRow.comma_beside (h : CommaRow trailing (as ++ .member :: bs)) (hm : .member ∈ as ++ bs) :
    bs.head? = some .comma ∨ as.getLast? = some .comma := by
  rcases h.at_member with ⟨k, rfl, hbs⟩ | ⟨k, as', rfl, _⟩
  · left
    cases hbs with
    | close j => exact absurd hm (by cases trailing <;> simp [List.mem_replicate])
    | next h => rfl
  · right
    rw [List.getLast?_append_of_ne_nil _ (by simp), List.getLast?_cons]
    simp

/-- One comma less than members, but for a trailing one. -/
theorem CommaRow.count_comma (h : CommaRow trailing ms) :
    ms.count .comma + 1 = ms.count .member + (if trailing then 1 else 0) := by
  obtain ⟨k, rest, rfl, hrest⟩ := h
  have hafter : rest.count .comma = rest.count .member + (if trailing then 1 else 0) := by
    induction hrest with
    | close j => cases trailing <;> simp [List.count_replicate]
    | next _ ih => simp only [List.count_cons, beq_self_eq_true, if_true, ih]; simp; omega
  simp [List.count_replicate, hafter]
  omega

namespace Tree

/-! ## Lists of the tree -/

def mark? (t : Tree) (n : NodeId) : Option Mark :=
  if t.kind n = .comment then none
  else if t.kind n = .comma then some .comma
  else if (t.node n).named then some .member
  else some .token

/-- The children of a node but for comments. -/
def marks (t : Tree) (p : NodeId) : List Mark := (t.children p).filterMap t.mark?

def members (t : Tree) (p : NodeId) : List NodeId := (t.children p).filter fun n => t.mark? n = some .member

/-- The children of `p` are a list, with a comma after the last member if `trailing`. -/
def CommaList (t : Tree) (p : NodeId) (trailing : Bool) : Prop := CommaRow trailing (t.marks p)

/-- The sibling right before the node or right after it is a comma. -/
def BesideComma (t : Tree) (n : NodeId) : Prop :=
  ∃ p before after c, t.parent n = some p ∧ t.children p = before ++ n :: after ∧ t.kind c = .comma ∧
    (after.head? = some c ∨ before.getLast? = some c)

variable {t t' : Tree} {p n : NodeId} {before after : List NodeId}

theorem without_after (before after : List NodeId) (n c : NodeId) :
    without (before ++ n :: c :: after) before.length (some (before.length + 1)) = before ++ after := by
  simp [without, List.eraseIdx_append_of_length_le]

theorem without_before (before after : List NodeId) (n c : NodeId) :
    without ((before ++ [c]) ++ n :: after) (before.length + 1) (some before.length) = before ++ after := by
  simp [without, List.eraseIdx_append_of_length_le]

theorem not_mem_siblings (ht : t.Consistent) (hc : t.children p = before ++ n :: after) :
    n ∉ before ∧ n ∉ after := by
  have hnd := ht.nodup p
  rw [hc] at hnd
  have hn := (List.nodup_cons.mp (List.nodup_middle.mp hnd)).1
  exact ⟨fun h => hn (List.mem_append_left _ h), fun h => hn (List.mem_append_right _ h)⟩

theorem besideComma_iff (ht : t.Consistent) (hc : t.children p = before ++ n :: after) :
    t.BesideComma n ↔ ∃ c, t.kind c = .comma ∧ (after.head? = some c ∨ before.getLast? = some c) := by
  have hp : t.parent n = some p := (ht.mem_children p n).mp (hc ▸ by simp)
  obtain ⟨hbefore, hafter⟩ := not_mem_siblings ht hc
  constructor
  · rintro ⟨p', before', after', c, hp', hc', hk, h⟩
    obtain rfl := Option.some.inj (hp.symm.trans hp')
    obtain ⟨rfl, _, rfl⟩ := (List.append_cons_inj_of_notMem hbefore hafter).mp (hc.symm.trans hc')
    exact ⟨c, hk, h⟩
  · rintro ⟨c, hk, h⟩
    exact ⟨p, before, after, c, hp, hc, hk, h⟩

/-- Behind a member stands a comma, or else before it, or on neither side. -/
theorem comma_cases (t : Tree) (before after : List NodeId) :
    (∃ c after', after = c :: after' ∧ t.kind c = .comma) ∨
      (∃ c before', before = before' ++ [c] ∧ t.kind c = .comma ∧ ∀ d, after.head? = some d → t.kind d ≠ .comma) ∨
      ∀ c, after.head? = some c ∨ before.getLast? = some c → t.kind c ≠ .comma := by
  by_cases hnext : ∃ c, after.head? = some c ∧ t.kind c = .comma
  · obtain ⟨c, hc, hk⟩ := hnext
    obtain ⟨after', rfl⟩ := List.head?_eq_some_iff.mp hc
    exact .inl ⟨c, after', rfl, hk⟩
  have hnext : ∀ d, after.head? = some d → t.kind d ≠ .comma := fun d hd hk => hnext ⟨d, hd, hk⟩
  by_cases hprevious : ∃ c, before.getLast? = some c ∧ t.kind c = .comma
  · obtain ⟨c, hc, hk⟩ := hprevious
    obtain ⟨before', rfl⟩ := List.getLast?_eq_some_iff.mp hc
    exact .inr (.inl ⟨c, before', rfl, hk, hnext⟩)
  · refine .inr (.inr fun c hc hk => ?_)
    rcases hc with hc | hc
    · exact hnext c hc hk
    · exact hprevious ⟨c, hc, hk⟩

theorem commaFor?_next {c : NodeId} (hk : t.kind c = .comma) :
    t.commaFor? (before ++ n :: c :: after) before.length = some (before.length + 1) := by
  simp [commaFor?, isCommaAt, hk]

theorem isCommaAt_next (hnext : ∀ d, after.head? = some d → t.kind d ≠ .comma) :
    t.isCommaAt (before ++ n :: after) (before.length + 1) = false := by
  cases after with
  | nil => simp [isCommaAt]
  | cons d after => simpa [isCommaAt] using hnext d rfl

theorem commaFor?_previous {c : NodeId} (hk : t.kind c = .comma)
    (hnext : ∀ d, after.head? = some d → t.kind d ≠ .comma) :
    t.commaFor? ((before ++ [c]) ++ n :: after) (before ++ [c]).length = some before.length := by
  rw [commaFor?, isCommaAt_next hnext]
  simp [isCommaAt, hk]

theorem commaFor?_alone (hno : ∀ c, after.head? = some c ∨ before.getLast? = some c → t.kind c ≠ .comma) :
    t.commaFor? (before ++ n :: after) before.length = none := by
  rw [commaFor?, isCommaAt_next fun d hd => hno d (.inl hd)]
  rcases List.eq_nil_or_concat before with rfl | ⟨before', c, rfl⟩
  · simp
  · have hc : t.kind c ≠ .comma := hno c (.inr (by simp))
    simp [isCommaAt, hc]

theorem idxOf?_children (ht : t.Consistent) (hc : t.children p = before ++ n :: after) :
    (t.children p).idxOf? n = some before.length := by
  rw [hc, List.idxOf?, List.findIdx?_append, List.findIdx?_eq_none_iff.mpr fun b hb => ?_]
  · simp [List.findIdx?_cons]
  · simpa using fun h : b = n => (not_mem_siblings ht hc).1 (h ▸ hb)

/-- A member of a child list can be detached, by cutting it out where it stands. -/
theorem detach_eq_cutOut (ht : t.Consistent) (hc : t.children p = before ++ n :: after) :
    t.detach n = .ok (t.cutOut p n (before ++ n :: after) before.length) := by
  have hp : t.parent n = some p := (ht.mem_children p n).mp (hc ▸ by simp)
  simp only [detach, hp, ht.removed_of_parent hp, idxOf?_children ht hc]
  rw [hc]

/-- The child list after a node left: the comma behind it went with it, else the comma before it, else none. -/
theorem children_detach (ht : t.Consistent) (hc : t.children p = before ++ n :: after)
    (hok : t.detach n = .ok t') :
    (∃ c after', after = c :: after' ∧ t.kind c = .comma ∧ t'.children p = before ++ after') ∨
      (∃ c before', before = before' ++ [c] ∧ t.kind c = .comma ∧ t'.children p = before' ++ after) ∨
      ¬ t.BesideComma n ∧ t'.children p = before ++ after := by
  have hmem : n ∈ t.children p := hc ▸ by simp
  obtain rfl := Except.ok.inj ((detach_eq_cutOut ht hc).symm.trans hok)
  rw [children_cutOut _ _ _ _ _ (lt_size_of_child hmem), if_pos rfl]
  rcases t.comma_cases before after with ⟨c, after', rfl, hk⟩ | ⟨c, before', rfl, hk, hnext⟩ | hno
  · rw [commaFor?_next hk, without_after]
    exact .inl ⟨c, after', rfl, hk, rfl⟩
  · rw [commaFor?_previous hk hnext, List.length_append, List.length_singleton, without_before]
    exact .inr (.inl ⟨c, before', rfl, hk, rfl⟩)
  · refine .inr (.inr ⟨fun hbeside => ?_, ?_⟩)
    · obtain ⟨c, hk, h⟩ := (besideComma_iff ht hc).mp hbeside
      exact hno c h hk
    · rw [commaFor?_alone hno, without, List.eraseIdx_append_of_length_le le_rfl]
      simp

/-! ## Taking a member out of a list -/

theorem mem_members : n ∈ t.members p ↔ n ∈ t.children p ∧ t.mark? n = some .member := by
  simp [members]

theorem named_of_mem_members (h : n ∈ t.members p) : n ∈ t.namedChildren p := by
  obtain ⟨hc, hm⟩ := mem_members.mp h
  refine List.mem_filter.mpr ⟨hc, ?_⟩
  by_contra hnamed
  rw [mark?, if_neg hnamed] at hm
  split_ifs at hm <;> cases hm

theorem mark?_comma {c : NodeId} : t.mark? c = some .comma ↔ t.kind c = .comma := by
  unfold mark?
  split_ifs with hcomment hcomma hnamed <;> simp_all

theorem exists_mark? {c : NodeId} (h : t.kind c ≠ .comment) : ∃ m, t.mark? c = some m := by
  rw [mark?, if_neg h]
  split_ifs <;> exact ⟨_, rfl⟩

theorem member_mem_marks (h : n ∈ t.members p) : .member ∈ t.marks p := by
  obtain ⟨hc, hm⟩ := mem_members.mp h
  exact List.mem_filterMap.mpr ⟨n, hc, hm⟩

theorem mark?_detach (ht : t.Consistent) (hp : t.parent n = some p) (hok : t.detach n = .ok t') :
    ∀ c ∈ t.children p, t'.mark? c = t.mark? c := by
  intro c hc
  obtain ⟨gone, hd⟩ := detached_of_parent ht hp hok
  have hlt : c < t.size := lt_size_of_parent ((ht.mem_children p c).mp hc)
  rw [mark?, hd.kind_eq c hlt, hd.named_eq c hlt, mark?]

/-- A member left the list, and no other. -/
theorem members_detach (ht : t.Consistent) (hp : t.parent n = some p) (hok : t.detach n = .ok t') :
    t'.members p = (t.members p).filter (· ≠ n) := by
  obtain ⟨gone, hd⟩ := detached_of_parent ht hp hok
  rw [members, members, hd.children_cut, List.filter_filter, List.filter_filter]
  refine List.filter_congr fun c hc => ?_
  rw [mark?_detach ht hp hok c hc]
  by_cases hm : t.mark? c = some .member
  · have : c ∉ gone ↔ c ≠ n := by
      refine ⟨fun hg he => hg (he ▸ hd.node_mem), fun hne hg => ?_⟩
      rcases hd.gone_comma c hg with he | hk
      · exact hne he
      · rw [mark?_comma.mpr hk] at hm
        cases hm
    simp [hm, this]
  · simp [hm]

/-- What leaves the row with a member: a comma if one stands directly beside it. -/
theorem marks_detach (ht : t.Consistent) (hn : n ∈ t.members p) (hok : t.detach n = .ok t') :
    ∃ as bs, t'.marks p = as ++ bs ∧
      (t.BesideComma n ∧
          (t.marks p = as ++ .member :: .comma :: bs ∨ t.marks p = as ++ .comma :: .member :: bs) ∨
        ¬ t.BesideComma n ∧ t.marks p = as ++ .member :: bs) := by
  obtain ⟨hmem, hmark⟩ := mem_members.mp hn
  have hp := (ht.mem_children p n).mp hmem
  obtain ⟨before, after, hc⟩ := List.append_of_mem hmem
  have old : ∀ l ⊆ t.children p, l.filterMap t'.mark? = l.filterMap t.mark? := fun l hl =>
    List.filterMap_congr fun c hcl => mark?_detach ht hp hok c (hl hcl)
  have hmarks : t.marks p = before.filterMap t.mark? ++ .member :: after.filterMap t.mark? := by
    rw [marks, hc, List.filterMap_append, List.filterMap_cons_some hmark]
  rcases children_detach ht hc hok with ⟨c, after', rfl, hk, hc'⟩ | ⟨c, before', rfl, hk, hc'⟩ | ⟨hno, hc'⟩
  · refine ⟨before.filterMap t.mark?, after'.filterMap t.mark?, ?_, .inl ⟨?_, .inl ?_⟩⟩
    · rw [marks, hc', old _ (by rw [hc]; intro x; simp; tauto), List.filterMap_append]
    · exact (besideComma_iff ht hc).mpr ⟨c, hk, .inl rfl⟩
    · rw [hmarks, List.filterMap_cons_some (mark?_comma.mpr hk)]
  · refine ⟨before'.filterMap t.mark?, after.filterMap t.mark?, ?_, .inl ⟨?_, .inr ?_⟩⟩
    · rw [marks, hc', old _ (by rw [hc]; intro x; simp; tauto), List.filterMap_append]
    · exact (besideComma_iff ht hc).mpr ⟨c, hk, .inr (by simp)⟩
    · rw [hmarks, List.filterMap_append, List.filterMap_cons_some (mark?_comma.mpr hk)]
      simp
  · refine ⟨before.filterMap t.mark?, after.filterMap t.mark?, ?_, .inr ⟨hno, hmarks⟩⟩
    rw [marks, hc', old _ (by rw [hc]; intro x; simp; tauto), List.filterMap_append]

/-- A list stays one if the member that leaves has a comma beside it and is not the last. -/
theorem CommaList.detach {trailing : Bool} (h : t.CommaList p trailing) (ht : t.Consistent)
    (hn : n ∈ t.members p) (hleft : t'.members p ≠ []) (hok : t.detach n = .ok t')
    (hbeside : t.BesideComma n) : t'.CommaList p trailing := by
  obtain ⟨as, bs, hmarks', ⟨_, hmarks⟩ | ⟨hno, _⟩⟩ := marks_detach ht hn hok
  · obtain ⟨m, hm⟩ := List.exists_mem_of_ne_nil _ hleft
    have hmem := member_mem_marks hm
    rw [hmarks'] at hmem
    rw [CommaList, hmarks']
    refine CommaRow.leave ?_ hmem
    rcases hmarks with hmarks | hmarks
    · exact .inl (hmarks ▸ h)
    · exact .inr (hmarks ▸ h)
  · exact absurd hbeside hno

/-- More commas than a list can have. -/
def Overfull (t : Tree) (p : NodeId) (trailing : Bool) : Prop :=
  (t.marks p).count .member + (if trailing then 1 else 0) < (t.marks p).count .comma + 1

theorem CommaList.not_overfull {trailing trailing' : Bool} (h : t.CommaList p trailing')
    (hle : trailing' = true → trailing = true) : ¬ t.Overfull p trailing := by
  have := CommaRow.count_comma h
  unfold Overfull
  cases trailing <;> cases trailing' <;> simp_all

/-- A removal takes one member, and a comma if there is one beside it. -/
theorem count_detach (ht : t.Consistent) (hn : n ∈ t.members p) (hok : t.detach n = .ok t') :
    (t.marks p).count .member = (t'.marks p).count .member + 1 ∧
      (t.BesideComma n → (t.marks p).count .comma = (t'.marks p).count .comma + 1) ∧
      (¬ t.BesideComma n → (t.marks p).count .comma = (t'.marks p).count .comma) := by
  obtain ⟨as, bs, hmarks', ⟨hbeside, hmarks | hmarks⟩ | ⟨hno, hmarks⟩⟩ := marks_detach ht hn hok
  · simp [hmarks, hmarks', hbeside, Nat.add_assoc]
  · simp [hmarks, hmarks', hbeside, Nat.add_assoc]
  · simp [hmarks, hmarks', hno, Nat.add_assoc]

theorem Overfull.detach {trailing : Bool} (h : t.Overfull p trailing) (ht : t.Consistent)
    (hn : n ∈ t.members p) (hok : t.detach n = .ok t') : t'.Overfull p trailing := by
  obtain ⟨hmember, hbeside, hno⟩ := count_detach ht hn hok
  unfold Overfull at h ⊢
  by_cases hb : t.BesideComma n
  · have := hbeside hb
    omega
  · have := hno hb
    omega

/-- A member without a comma beside it leaves one comma too many. -/
theorem CommaList.overfull_detach {trailing : Bool} (h : t.CommaList p trailing) (ht : t.Consistent)
    (hn : n ∈ t.members p) (hok : t.detach n = .ok t') (hb : ¬ t.BesideComma n) :
    t'.Overfull p trailing := by
  obtain ⟨hmember, _, hno⟩ := count_detach ht hn hok
  have hcount := CommaRow.count_comma h
  have := hno hb
  unfold Overfull
  omega

/-- Without comments in it, a list of two members or more has a comma beside each. -/
theorem CommaList.besideComma {trailing : Bool} (h : t.CommaList p trailing) (ht : t.Consistent)
    (hn : n ∈ t.members p) (htwo : ∃ m ∈ t.members p, m ≠ n)
    (hplain : ∀ c ∈ t.children p, t.kind c ≠ .comment) : t.BesideComma n := by
  obtain ⟨hmem, hmark⟩ := mem_members.mp hn
  obtain ⟨before, after, hc⟩ := List.append_of_mem hmem
  rw [CommaList, marks, hc, List.filterMap_append, List.filterMap_cons_some hmark] at h
  have hother : .member ∈ before.filterMap t.mark? ++ after.filterMap t.mark? := by
    obtain ⟨m, hm, hne⟩ := htwo
    obtain ⟨hmc, hmm⟩ := mem_members.mp hm
    rw [hc] at hmc
    rw [← List.filterMap_append]
    exact List.mem_filterMap.mpr ⟨m, by simpa [hne] using hmc, hmm⟩
  rw [hc] at hplain
  refine (besideComma_iff ht hc).mpr ?_
  rcases h.comma_beside hother with hcomma | hcomma
  · cases after with
    | nil => simp at hcomma
    | cons c after =>
      obtain ⟨m, hm⟩ := exists_mark? (hplain c (by simp))
      rw [List.filterMap_cons_some hm, List.head?_cons] at hcomma
      exact ⟨c, mark?_comma.mp (hm.trans hcomma), .inl rfl⟩
  · rcases List.eq_nil_or_concat before with rfl | ⟨before, c, rfl⟩
    · simp at hcomma
    · rw [List.concat_eq_append] at hcomma hplain ⊢
      obtain ⟨m, hm⟩ := exists_mark? (hplain c (by simp))
      rw [List.filterMap_append, List.filterMap_cons_some hm, List.filterMap_nil,
        List.getLast?_concat] at hcomma
      exact ⟨c, mark?_comma.mp (hm.trans hcomma), .inr (by simp)⟩

end Tree
end DeadCode
