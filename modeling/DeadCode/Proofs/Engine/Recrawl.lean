import DeadCode.Proofs.Engine.Removals
import DeadCode.Proofs.Names.Checks
import DeadCode.Proofs.Names.Recrawl

/-!
Removals with an analysis that listens. If nothing outside of a construct counts towards a name declared inside, its
removal leaves the analysis up to date, and it agrees with a crawl of the tree that is left
(`removal_agrees_with_crawl`). Each cut of a removal is one step (`Mirrors.settle`).
-/

namespace DeadCode

open DeadCode.Tree Workspace

/-- The analysis listens to the tree and holds what a crawl of it would. -/
structure Mirrors (id : AnalysisId) (w : Workspace) : Prop where
  consistent : w.tree.Consistent
  framed : w.tree.Framed
  follows : w.Follows id
  exact : Exact (w.analysis id) w.tree

/-- Whatever counts towards a name that is declared below the node stands below it too. -/
def Analysis.Encloses (a : Analysis) (t : Tree) (n : NodeId) : Prop :=
  ∀ i b, a.declared.get? i = some b → t.Below n i → ∀ m ∈ (a.binding b).references, t.Below n m

/-- What is removed as a member of a list: a declarator, a specifier in its list, a part of an import clause, a
statement in a list of statements. -/
inductive Tree.Member (t : Tree) (n : NodeId) : Prop
  | declarator : t.kind n = .variableDeclarator → Member t n
  | specifier {list : NodeId} : t.parent n = some list → t.kind list = .namedImports → Member t n
  | clause {clause statement : NodeId} : t.parent n = some clause → t.kind clause = .importClause →
      t.parent clause = some statement → t.kind statement = .importStatement → Member t n
  | statement {list : NodeId} : t.parent n = some list → (t.kind list).listsStatements = true → Member t n

/-- An attached import statement that no export statement holds. -/
structure Tree.HostsImport (t : Tree) (s : NodeId) : Prop where
  kind : t.kind s = .importStatement
  attached : t.Below t.root s
  unexported : t.Unexported s

variable {id : AnalysisId} {w : Workspace} {n m q s : NodeId} {gone : List NodeId} {t : Tree}

theorem Tree.HostsImport.cut {t t' : Tree} (h : t.HostsImport s) (ht : t.Consistent) (hc : Cut t t' q n gone)
    (hst : Stays t gone s) : t'.HostsImport s :=
  ⟨(hc.kind_eq s (hst.lt_size ht)).trans h.kind, (stays_iff ht hc (hst.lt_size ht)).mp hst,
    h.unexported.cut ht hc h.attached⟩

/-- Members stand where something may be cut. -/
theorem Tree.Member.site (h : t.Member n) (hs : t.Framed) (hn : t.Below t.root n) (hp : t.parent n = some q) :
    (t.kind q).isSite = true := by
  have parent : ∀ {p}, t.parent n = some p → p = q := fun hp' => Option.some.inj (hp'.symm.trans hp)
  cases h with
  | declarator hk => exact Kind.isSite_of_holdsDeclarators (hs.keyword n q hn hk hp).1
  | specifier hp' hk => exact parent hp' ▸ Kind.isSite_of_listsImports (by rw [hk]; rfl)
  | clause hp' hk => exact parent hp' ▸ Kind.isSite_of_listsImports (by rw [hk]; rfl)
  | statement hp' hk => exact parent hp' ▸ Kind.isSite_of_listsStatements hk

/-- The cut is closed if the analysis counts nothing across its border. -/
theorem Exact.closed {a : Analysis} {t t' : Tree} (ht : t.Consistent) (hs : t.Framed) (h : Pruning t t' q n gone)
    (hq : t.Below t.root q) (ha : Exact a t) (he : a.Encloses t n) : Closed t.references (t.offcut gone) := by
  intro r hr hoff
  have hn : t.Below t.root n := .step h.cut.parent_mem hq
  have hrecords := ha.reflects.records
  obtain ⟨_, d, hd, hid, _⟩ := reference_inside ht hr
  rw [← hid, offcut_declared ht hs h hq (mem_declarations_of_binding hd), mem_walkFrom_iff ht hn] at hoff
  obtain ⟨b, hb, _⟩ := hrecords.record d hd
  obtain ⟨hlt, hbid⟩ := hrecords.declared hb
  refine (h.cut.mem_offcut_iff ht hq).mpr ⟨n, h.cut.node_mem, he _ b hb hoff r.1 ?_⟩
  rw [hrecords.ledger.references b hlt, hbid]
  exact List.mem_map_of_mem (List.mem_filter.mpr ⟨hr, by simpa using hid.symm⟩)

namespace Mirrors

/-- One cut, with the analysis told. -/
theorem settle (h : Mirrors id w) (hp : Pruning w.tree t q n gone) (hq : w.tree.Below w.tree.root q)
    (hn : w.tree.Unexported n) (hc : Closed w.tree.references (w.tree.offcut gone)) :
    Mirrors id (w.settle t n) where
  consistent := by
    rw [tree_settle]
    exact hp.cut.consistent h.consistent
  framed := by
    rw [tree_settle]
    exact framed_cut h.consistent h.framed hp
  follows := h.follows.settle t n
  exact := by
    rw [tree_settle, analysis_settle h.follows]
    exact h.exact.subtract h.consistent h.framed hp hq hn hc

/-- A part of an import statement leaves. -/
theorem settle_part (h : Mirrors id w) (hs : w.tree.HostsImport s) (hd : Detached w.tree t s m gone)
    (hk : w.tree.kind m ≠ .exportStatement)
    (hc : Pruning w.tree t s m gone → Closed w.tree.references (w.tree.offcut gone)) : Mirrors id (w.settle t m) :=
  have hp : Pruning w.tree t s m gone := .importPart (by rw [hs.kind]; rfl) hd
  h.settle hp hs.attached (hs.unexported.child hd.parent_mem hk) (hc hp)

/-- A stale analysis mirrors the tree after the next query. -/
theorem of_refresh (ht : w.tree.Consistent) (hs : w.tree.Framed) (hf : w.Follows id)
    (hstale : (w.analysis id).stale w.tree = true) : Mirrors id (w.refresh id) := by
  obtain ⟨htree, hfollowers, hsize, _⟩ := refresh_frame w id
  refine ⟨htree ▸ ht, htree ▸ hs, ⟨hfollowers ▸ hf.mem, hsize ▸ hf.lt⟩, ?_⟩
  rw [analysis_refresh hf.lt, if_pos hstale, htree]
  exact exact_crawl ht _

end Mirrors

/-! ## Removals -/

section Removals

variable (h : Mirrors id w) (hn : w.tree.Below w.tree.root n) (hexport : w.tree.Unexported n)
  (hinside : (w.analysis id).Encloses w.tree n)

include h hn hexport hinside

/-- The cut that takes the construct itself out. -/
theorem Mirrors.settle_enclosed (hp : Pruning w.tree t q n gone) : Mirrors id (w.settle t n) := by
  have hq := hn.root_of_below h.consistent (.of_parent hp.cut.parent_mem)
  exact h.settle hp hq hexport (h.exact.closed h.consistent h.framed hp hq hinside)

namespace Job

theorem removeStatement_mirrors (hroot : n ≠ w.tree.root) :
    (removeStatement n).Ends w (fun _ w' => Mirrors id w') Never := by
  obtain ⟨q, hp, _⟩ := hn.parent hroot
  refine (ends_removeStatement h.consistent hp).imp fun done w' hend => ?_
  rcases hend with ⟨_, t, hcut, rfl⟩ | ⟨_, rfl, _⟩
  · obtain ⟨gone, hp, _⟩ := hcut.pruning
    exact h.settle_enclosed hn hexport hinside hp
  · exact h

/-- An emptied clause leaves, and the word `from` after it. -/
theorem removeListMember_mirrors_clause {c s : NodeId} (hp : w.tree.parent n = some c)
    (hk : w.tree.kind c = .importClause) (hps : w.tree.parent c = some s) (hks : w.tree.kind s = .importStatement) :
    (removeListMember n).Ends w (fun _ w' => Mirrors id w') Never := by
  have ht := h.consistent
  have hc := hn.root_of_below ht (.of_parent hp)
  have hs : w.tree.HostsImport s := ⟨hks, hc.root_of_below ht (.of_parent hps), (hexport.parent hp).parent hps⟩
  refine (ends_removeListMember_clause ht hc hk hp hps).imp fun _ w' hend => ?_
  obtain ⟨t, gone, hd, hend⟩ := hend
  have h₁ := h.settle_enclosed hn hexport hinside (.importPart (by rw [hk]; rfl) hd)
  rcases hend with ⟨_, rfl⟩ | ⟨hempty, t₂, gone₂, hd₂, hend⟩
  · exact h₁
  have hcst := hd.site_stays ht hc
  have hkc : t.kind c = .importClause := (hd.kind_eq c (hcst.lt_size ht)).trans hk
  have hs₁ : t.HostsImport s := hs.cut ht hd.toCut (hcst.parent ht hps)
  have htree : (w.settle t n).tree = t := tree_settle w t n
  generalize w.settle t n = w₁ at h₁ htree hend
  subst htree
  have h₂ := h₁.settle_part hs₁ hd₂ (by rw [hkc]; decide) fun hprune =>
    closed_of_clause h₁.consistent h₁.framed hprune hs₁.attached (fun _ hr => hr) hkc hempty
  rcases hend with rfl | ⟨word, t₃, gone₃, hkw, hd₃, rfl⟩
  · exact h₂
  have hs₂ : t₂.HostsImport s :=
    hs₁.cut h₁.consistent hd₂.toCut (hd₂.site_stays h₁.consistent hs₁.attached)
  have htree : (w₁.settle t₂ c).tree = t₂ := tree_settle w₁ t₂ c
  generalize w₁.settle t₂ c = w₂ at h₂ htree
  subst htree
  have hleaf := h₂.framed.leaf word (.step hd₃.parent_mem hs₂.attached) (.inl (by rw [hkw]; rfl))
  refine h₂.settle_part hs₂ hd₃ (by rw [hkw]; decide) fun hprune =>
    closed_of_leaf h₂.consistent h₂.framed hprune hs₂.attached (fun _ hr => hr) hleaf fun hki => ?_
  rw [hkw] at hki
  cases hki

theorem removeListMember_mirrors (hm : w.tree.Member n) :
    (removeListMember n).Ends w (fun _ w' => Mirrors id w') Never := by
  -- of a list that is no clause the member leaves alone
  have alone : ∀ {q}, w.tree.parent n = some q → w.tree.kind q ≠ .importClause →
      (∀ {t gone}, Detached w.tree t q n gone → Pruning w.tree t q n gone) →
      (removeListMember n).Ends w (fun _ w' => Mirrors id w') Never := by
    intro q hp hk hprune
    refine (ends_removeListMember h.consistent hp hk).imp fun _ w' hend => ?_
    obtain ⟨t, gone, hd, rfl⟩ := hend
    exact h.settle_enclosed hn hexport hinside (hprune hd)
  cases hm with
  | declarator hk =>
    obtain ⟨q, hp, _⟩ := hn.parent fun he => by
      rw [he, h.framed.root_program] at hk
      cases hk
    have hholds := (h.framed.keyword n q hn hk hp).1
    refine alone hp (fun hkq => ?_) fun hd => .declarator hholds hk hd
    rw [hkq] at hholds
    cases hholds
  | specifier hp hk => exact alone hp (by rw [hk]; decide) fun hd => .importPart (by rw [hk]; rfl) hd
  | clause hp hk hps hks => exact removeListMember_mirrors_clause h hn hexport hinside hp hk hps hks
  | statement hp hk =>
    refine alone hp (fun hkq => ?_) fun hd => .statement hk hd
    rw [hkq] at hk
    cases hk

end Job

end Removals

/-! ## What is asked of a construct, in a form that can be decided -/

theorem Tree.unexported_of_walk (ht : t.Consistent) (hn : t.Below t.root n)
    (h : ∀ s ∈ t.walk, t.kind s = .exportStatement → n ∉ t.walkFrom s) : t.Unexported n := fun s hs hb =>
  have hroot := hn.root_of_below ht hb
  h s ((mem_walk_iff ht).mpr hroot) hs ((mem_walkFrom_iff ht hroot).mpr hb)

theorem Analysis.encloses_of_entries {a : Analysis} (ht : t.Consistent) (hn : t.Below t.root n)
    (h : ∀ e ∈ a.declared.entries, e.1 ∈ t.walkFrom n → ∀ m ∈ (a.binding e.2).references, m ∈ t.walkFrom n) :
    a.Encloses t n := fun _ _ hb hi m hm =>
  (mem_walkFrom_iff ht hn).mp (h _ (Table.mem_of_get? hb) ((mem_walkFrom_iff ht hn).mpr hi) m hm)

/-! ## The analysis after a removal -/

/-- The analysis is up to date, and a crawl would find the same. -/
structure MatchesCrawl (id : AnalysisId) (w : Workspace) : Prop where
  mirrors : Mirrors id w
  current : (w.analysis id).stale w.tree = false
  agrees : ∀ a : Analysis, (w.analysis id).Agrees (a.crawl w.tree)

theorem Mirrors.matchesCrawl (h : Mirrors id w) : MatchesCrawl id w where
  mirrors := h
  current := by simp [Analysis.stale, h.exact.version]
  agrees a := h.exact.agrees (exact_crawl h.consistent a) h.consistent

/-- The small program, followed by an analysis that has crawled it. -/
def crawledProgram : Workspace := ({ tree := smallProgram } : Workspace).startAnalysis.2.refresh 0

/-- If nothing outside of a construct counts towards a name declared inside, then after its removal, as a statement or
as a member of a list, the analysis that followed the tree is up to date and agrees with a crawl. -/
theorem removal_agrees_with_crawl (h : Mirrors id w) (hn : w.tree.contains n = true) (hroot : n ≠ w.tree.root)
    (hexport : w.tree.Unexported n) (hinside : (w.analysis id).Encloses w.tree n) :
    (Job.removeStatement n).Ends w (fun done w' => w'.tree.contains n = !done ∧ (done = false → w' = w) ∧
        MatchesCrawl id w') Job.Never ∧
      (w.tree.Member n → (Job.removeListMember n).Ends w (fun _ w' => w'.tree.contains n = false ∧
        MatchesCrawl id w') Job.Never) := by
  have hbelow := (contains_iff_below h.consistent).mp hn
  have left : ∀ {w'}, Mirrors id w' → Job.TakesOut n w w' → w'.tree.contains n = false := fun hm hout => by
    rw [← Bool.not_eq_true, contains_iff_below hm.consistent]
    exact hout.2.2
  refine ⟨?_, fun hm => ?_⟩
  · have hmirrors := Job.removeStatement_mirrors h hbelow hexport hinside hroot
    refine (hmirrors.and (Job.ends_removeStatement_any h.consistent n)).mono (fun done w' hend => ?_) fun _ _ he => he.1
    obtain ⟨hm, hout, hstuck⟩ := hend
    refine ⟨?_, fun hdone => (hstuck hdone).1, hm.matchesCrawl⟩
    cases done with
    | true => exact left hm (hout rfl)
    | false =>
      rw [(hstuck rfl).1, hn]
      rfl
  · have hmirrors := Job.removeListMember_mirrors h hbelow hexport hinside hm
    have hspares : ∀ q, w.tree.parent n = some q → w.tree.Spares q [n] := fun q hq =>
      .of_site (hm.site h.framed hbelow hq)
    refine (hmirrors.and (Job.ends_removeListMember_any h.consistent hspares)).mono (fun _ w' hend => ?_)
      fun _ _ he => he.1
    exact ⟨left hend.1 hend.2, hend.1.matchesCrawl⟩

/-- The declaration of `a`, and its declarator. -/
theorem removal_agrees_with_crawl_smallProgram :
    (∃ w', Job.removeStatement 1 crawledProgram = .ok true w' ∧ w'.tree.contains 1 = false ∧ MatchesCrawl 0 w') ∧
      ∃ w', Job.removeListMember 3 crawledProgram = .ok 3 w' ∧ w'.tree.contains 3 = false ∧ MatchesCrawl 0 w' := by
  obtain ⟨ht, hs, _⟩ := admissible_iff.mp admissible_smallProgram
  have hw : Mirrors 0 crawledProgram := .of_refresh ht hs.toFramed ⟨by decide, by decide⟩ (by decide)
  have hasked : ∀ n ∈ [1, 3], crawledProgram.tree.contains n = true ∧ n ≠ crawledProgram.tree.root ∧
      (∀ s ∈ crawledProgram.tree.walk, crawledProgram.tree.kind s = .exportStatement →
        n ∉ crawledProgram.tree.walkFrom s) ∧
      ∀ e ∈ (crawledProgram.analysis 0).declared.entries, e.1 ∈ crawledProgram.tree.walkFrom n →
        ∀ m ∈ ((crawledProgram.analysis 0).binding e.2).references, m ∈ crawledProgram.tree.walkFrom n := by
    decide +kernel
  have hremoval := fun n hn =>
    have hasked := hasked n hn
    have hbelow := (contains_iff_below hw.consistent).mp hasked.1
    removal_agrees_with_crawl hw hasked.1 hasked.2.1 (unexported_of_walk hw.consistent hbelow hasked.2.2.1)
      (Analysis.encloses_of_entries hw.consistent hbelow hasked.2.2.2)
  have hstatement : answer? (Job.removeStatement 1 crawledProgram) (fun done _ => done) = some true := by decide +kernel
  have hmember : answer? (Job.removeListMember 3 crawledProgram) (fun m _ => m) = some 3 := by decide +kernel
  obtain ⟨_, w₁, hrun₁, rfl⟩ := answer?_eq_some.mp hstatement
  obtain ⟨_, w₂, hrun₂, rfl⟩ := answer?_eq_some.mp hmember
  have h₁ := (hremoval 1 (by decide)).1.of_ok hrun₁
  have h₂ := ((hremoval 3 (by decide)).2 (.declarator (by decide +kernel))).of_ok hrun₂
  exact ⟨⟨w₁, hrun₁, h₁.1, h₁.2.2⟩, w₂, hrun₂, h₂⟩

end DeadCode
