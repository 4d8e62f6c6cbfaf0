import DeadCode.Proofs.Engine.Skeleton

/-!
Import statements after a run. Each one that is still attached has kept its source, and it is either what it was, with
a member in its clause, or it has lost its clause and the word `from` and nothing else (`run_keeps_imports`). So it ends
up bare unless something else stood before its source: the word `type` of a type import stays where it is.
-/

namespace DeadCode

open DeadCode.Tree Workspace

namespace Tree

/-- The children of an import statement as the grammars give them: one clause and one word `from`, or neither. -/
structure ImportList (t : Tree) (l : List NodeId) : Prop where
  clause_once : ∀ c ∈ l, ∀ d ∈ l, t.kind c = .importClause → t.kind d = .importClause → c = d
  word_once : ∀ c ∈ l, ∀ d ∈ l, t.kind c = .fromWord → t.kind d = .fromWord → c = d
  clause_iff_word : (∃ c ∈ l, t.kind c = .importClause) ↔ ∃ c ∈ l, t.kind c = .fromWord
  source : ∀ c ∈ l, (t.node c).field = some .source → t.kind c ≠ .importClause ∧ t.kind c ≠ .fromWord
  comma : ∀ c ∈ l, t.kind c ≠ .comma

/-- Imports are as the grammars give them, and every clause has a member. -/
structure ImportShape (t : Tree) : Prop where
  statement : ∀ s, t.Below t.root s → t.kind s = .importStatement → t.ImportList (t.children s)
  clauses : t.ClausesFilled

/-- The import has a clause with a member, and the word `from`. -/
def WholeImport (t : Tree) (s : NodeId) : Prop :=
  (∃ c ∈ t.children s, t.kind c = .importClause ∧ t.namedChildren c ≠ []) ∧ ∃ c ∈ t.children s, t.kind c = .fromWord

/-- What is left without a clause and the word `from`. -/
def clauseless (t : Tree) (l : List NodeId) : List NodeId :=
  l.filter fun c => t.kind c ≠ .importClause ∧ t.kind c ≠ .fromWord

/-- What stands between the word `import` and the source, comments apart. A bare import has nothing there. -/
def opening (t : Tree) (l : List NodeId) : List NodeId :=
  (l.takeWhile fun c => (t.node c).field ≠ some .source).filter fun c =>
    t.kind c ≠ .other "import" ∧ t.kind c ≠ .comment

variable {t u : Tree} {s n : NodeId} {l l' : List NodeId}

/-! ## The children of one import -/

theorem Leaves.eq_filter (h : t.Leaves n l l') (hcomma : ∀ c ∈ l, t.kind c ≠ .comma) (hl : l.Nodup) :
    l' = l.filter (· ≠ n) := by
  cases h with
  | @following before after c hc => exact absurd hc (hcomma c (by simp))
  | @preceding before after c hc => exact absurd hc (hcomma c (by simp))
  | @alone before after _ =>
    have hout : n ∉ before ++ after := (List.nodup_middle.mp hl).notMem
    have hstay : ∀ c ∈ before ++ after, decide (c ≠ n) = true := fun c hc => by
      simpa using ne_of_mem_of_not_mem hc hout
    rw [List.filter_append, List.filter_cons_of_neg (by simp), ← List.filter_append, List.filter_eq_self.mpr hstay]

/-- An import sheds its clause and the word `from`, both at once. -/
theorem Sheds.eq_clauseless (h : t.Sheds .importStatement l l') (hl : t.ImportList l) (hnd : l.Nodup) :
    l' = t.clauseless l := by
  cases h with
  | member hs => cases hs
  | @clause _ c _ hk hleaves hno =>
    obtain rfl := hleaves.eq_filter hl.comma hnd
    refine List.filter_congr fun x hx => ?_
    by_cases hxc : x = c
    · simp [hxc, hk]
    · have hclause : t.kind x ≠ .importClause := fun hkx => hxc (hl.clause_once x hx c hleaves.mem hkx hk)
      have hword : t.kind x ≠ .fromWord := hno x (List.mem_filter.mpr ⟨hx, by simpa using hxc⟩)
      simp [hxc, hclause, hword]
  | @clauseAndWord _ _ c word _ hk hleaves hword hleaves' =>
    have hkw : t.kind word = .fromWord := by simpa using List.find?_some hword
    have hmem := hleaves.subset (List.mem_of_find?_eq_some hword)
    obtain rfl := hleaves.eq_filter hl.comma hnd
    obtain rfl := hleaves'.eq_filter (fun x hx => hl.comma x (List.mem_filter.mp hx).1) (hnd.filter _)
    rw [List.filter_filter]
    refine List.filter_congr fun x hx => ?_
    by_cases hxc : x = c
    · simp [hxc, hk]
    · by_cases hxw : x = word
      · simp [hxw, hkw]
      · have hclause : t.kind x ≠ .importClause := fun hkx => hxc (hl.clause_once x hx c hleaves.mem hkx hk)
        have hword : t.kind x ≠ .fromWord := fun hkx => hxw (hl.word_once x hx word hmem hkx hkw)
        simp [hxc, hxw, hclause, hword]

/-- Without a clause it sheds no more. -/
theorem not_sheds_clauseless : ¬ t.Sheds .importStatement (t.clauseless l) l' := by
  have hno : ∀ c, t.kind c = .importClause → c ∉ t.clauseless l := fun c hk hc => by
    simp [clauseless, hk] at hc
  intro h
  cases h with
  | member hs => cases hs
  | clause _ hk hleaves => exact hno _ hk hleaves.mem
  | clauseAndWord _ hk hleaves => exact hno _ hk hleaves.mem

theorem eq_or_clauseless (h : Relation.ReflTransGen (t.Sheds .importStatement) l l') (hl : t.ImportList l)
    (hnd : l.Nodup) : l' = l ∨ l' = t.clauseless l := by
  induction h with
  | refl => exact .inl rfl
  | tail _ hstep ih =>
    rcases ih with rfl | rfl
    · exact .inr (hstep.eq_clauseless hl hnd)
    · exact absurd hstep not_sheds_clauseless

theorem ImportList.clauseless_eq (hl : t.ImportList l) (hno : ¬ ∃ c ∈ l, t.kind c = .importClause) :
    t.clauseless l = l := by
  refine List.filter_eq_self.mpr fun c hc => ?_
  have hclause : t.kind c ≠ .importClause := fun hk => hno ⟨c, hc, hk⟩
  have hword : t.kind c ≠ .fromWord := fun hk => hno (hl.clause_iff_word.mpr ⟨c, hc, hk⟩)
  simp [hclause, hword]

theorem opening_congr (h : ∀ c ∈ l, u.kind c = t.kind c ∧ (u.node c).field = (t.node c).field) :
    u.opening l = t.opening l := by
  induction l with
  | nil => rfl
  | cons c l ih =>
    obtain ⟨hk, hf⟩ := h c List.mem_cons_self
    have ih := ih fun d hd => h d (List.mem_cons_of_mem c hd)
    unfold opening at ih ⊢
    simp only [List.takeWhile_cons, hf]
    split
    · rw [List.filter_cons, List.filter_cons, hk, ih]
    · rfl

theorem ImportList.opening_clauseless (hl : t.ImportList l) :
    t.opening (t.clauseless l) = t.clauseless (t.opening l) := by
  unfold opening clauseless
  rw [Lists.takeWhile_filter fun c hc hf => by simpa using hl.source c hc (by simpa using hf), List.filter_comm]

theorem child?_congr (h : ∀ c ∈ u.children s, (u.node c).field = (t.node c).field) (f : Field) :
    u.child? s f = (u.children s).find? fun c => (t.node c).field = some f :=
  Lists.find?_congr fun c hc => by rw [h c hc]

theorem ImportList.find?_clauseless (hl : t.ImportList l) :
    ((t.clauseless l).find? fun c => (t.node c).field = some .source) =
      l.find? fun c => (t.node c).field = some .source := by
  rw [clauseless, List.find?_filter]
  refine Lists.find?_congr fun c hc => ?_
  by_cases hf : (t.node c).field = some .source
  · simp [hf, hl.source c hc hf]
  · simp [hf]

/-! ## Imports of a reaped tree -/

/-- An import that is left is as it was, or without its clause. -/
theorem Reaped.whole_or_clauseless (h : Reaped t u) (ht : t.Consistent) (hf : t.ClausesFilled) (hs : s < t.size)
    (hroot : u.Below u.root s) (hk : t.kind s = .importStatement) (hl : t.ImportList (t.children s)) :
    u.WholeImport s ∧ u.children s = t.children s ∨ u.children s = t.clauseless (t.children s) := by
  have hr := h.remains ht
  have hkeeps := h.keepsImport ht hs hk
  unfold KeepsChildren at hkeeps
  rw [hk, if_neg (by decide), if_pos (by decide)] at hkeeps
  rcases eq_or_clauseless hkeeps hl (ht.nodup s) with heq | hless
  · by_cases hclause : ∃ c ∈ t.children s, t.kind c = .importClause
    · have hkind : ∀ c ∈ u.children s, u.kind c = t.kind c := fun c hc =>
        hr.kind_eq c (lt_size_of_parent ((ht.mem_children s c).mp (heq ▸ hc)))
      obtain ⟨word, hw, hkw⟩ := hl.clause_iff_word.mp hclause
      obtain ⟨c, hc, hkc⟩ := hclause
      rw [← heq] at hc hw
      have hattached : u.Below u.root c := .step ((hr.consistent.mem_children s c).mp hc) hroot
      have hfilled := h.clausesFilled ht hf c hattached ((hkind c hc).trans hkc)
      exact .inl ⟨⟨⟨c, hc, (hkind c hc).trans hkc, hfilled⟩, word, hw, (hkind word hw).trans hkw⟩, heq⟩
    · exact .inr (heq.trans (hl.clauseless_eq hclause).symm)
  · exact .inr hless

end Tree

/-- Whether it returns or fails, a run leaves each import that is still attached with its source. Either the import is
as it was, with a member in its clause, or it has lost its clause and the word `from`, and nothing else; then all else
that stood before its source still does. -/
theorem run_keeps_imports (e : Engine) (w w' : Workspace) (ht : w.tree.Consistent) (hd : w.tree.DeclaratorsHeld)
    (hi : w.tree.ImportShape) (hend : (∃ report, e.run w = .ok report w') ∨ ∃ err, e.run w = .error err w')
    (s : NodeId) (hroot : w'.tree.Below w'.tree.root s) (hk : w'.tree.kind s = .importStatement) :
    w'.tree.child? s .source = w.tree.child? s .source ∧
      (w'.tree.WholeImport s ∧ w'.tree.children s = w.tree.children s ∨
        w'.tree.children s = w.tree.clauseless (w.tree.children s) ∧
          w'.tree.opening (w'.tree.children s) = w.tree.clauseless (w.tree.opening (w.tree.children s))) := by
  have hp : Reaped w.tree w'.tree := Job.Ends.of_end (Job.onlyReaps_run e ht hd) hend
  have hr := hp.remains ht
  obtain ⟨hs, hroot', hk'⟩ := hr.old hroot (by rw [hk]; decide)
  rw [← hk'] at hk
  have hl := hi.statement s hroot' hk
  have hleft := hp.whole_or_clauseless ht hi.clauses hs hroot hk hl
  have hold : ∀ c ∈ w'.tree.children s, c < w.tree.size := by
    intro c hc
    have hin : c ∈ w.tree.children s := by
      rcases hleft with ⟨_, heq⟩ | hless
      · exact heq ▸ hc
      · exact (List.mem_filter.mp (hless ▸ hc)).1
    exact lt_size_of_parent ((ht.mem_children s c).mp hin)
  have hsource := child?_congr (fun c hc => hr.field_eq c (hold c hc)) .source
  rcases hleft with ⟨hwhole, heq⟩ | hless
  · constructor
    · rw [hsource, heq, child?]
    · exact .inl ⟨hwhole, heq⟩
  · constructor
    · rw [hsource, hless, hl.find?_clauseless, child?]
    · have hopening := opening_congr fun c hc => ⟨hr.kind_eq c (hold c hc), hr.field_eq c (hold c hc)⟩
      exact .inr ⟨hless, by rw [hopening, hless, hl.opening_clauseless]⟩

/-- The program `import type Def from 'm';`. -/
def typeImport : Tree where
  nodes := #[
    { kind := .program, children := [1] },
    { kind := .importStatement, children := [2, 3, 4, 6, 7, 11], parent := some 0 },
    { kind := .other "import", named := false, text := "import", parent := some 1 },
    { kind := .other "type", named := false, text := "type", leading := " ", parent := some 1 },
    { kind := .importClause, leading := " ", children := [5], parent := some 1 },
    { kind := .identifier, text := "Def", parent := some 4 },
    { kind := .fromWord, named := false, text := "from", leading := " ", parent := some 1 },
    { kind := .other "string", field := some .source, leading := " ", children := [8, 9, 10], parent := some 1 },
    { kind := .other "'", named := false, text := "'", parent := some 7 },
    { kind := .other "string_fragment", text := "m", parent := some 7 },
    { kind := .other "'", named := false, text := "'", parent := some 7 },
    { kind := .other ";", named := false, text := ";", parent := some 1 }]

/-- The clause and the word `from` leave, and the word `type` stays: what is printed is `import type 'm';`. -/
theorem run_keeps_imports_typeImport : ∃ report w',
    ({} : Engine).run { tree := typeImport } = .ok report w' ∧ w'.tree.render = "import type 'm';" ∧
      w'.tree.child? 1 .source = some 7 ∧ w'.tree.children 1 = [2, 3, 7, 11] ∧
      w'.tree.opening (w'.tree.children 1) = [3] := by
  have hout : answer? (({} : Engine).run { tree := typeImport }) (fun _ w' => (w'.tree.render,
      decide (w'.tree.parent 1 = some w'.tree.root), w'.tree.kind 1, w'.tree.children 1)) =
        some ("import type 'm';", true, .importStatement, [2, 3, 7, 11]) := by decide +kernel
  obtain ⟨report, w', hrun, hout⟩ := answer?_eq_some.mp hout
  simp only [Prod.mk.injEq] at hout
  obtain ⟨hprint, hp, hk, hchildren⟩ := hout
  have ht : typeImport.Consistent := by decide +kernel
  have hnone : ∀ n < typeImport.size, typeImport.kind n ≠ .variableDeclarator := by decide +kernel
  have hheld : typeImport.DeclaratorsHeld := fun n _ _ hp hk => absurd hk (hnone n (lt_size_of_parent hp))
  have hstatement : ∀ s < typeImport.size, typeImport.kind s = .importStatement → s = 1 := by decide +kernel
  have hclause : ∀ c < typeImport.size, typeImport.kind c = .importClause → typeImport.namedChildren c ≠ [] := by
    decide +kernel
  have hshape : typeImport.ImportShape := {
    statement := fun s hs hk => by
      obtain rfl := hstatement s (hs.lt_size ht) hk
      constructor <;> decide +kernel
    clauses := fun c hc hk => hclause c (hc.lt_size ht) hk }
  obtain ⟨hsource, ⟨_, hsame⟩ | ⟨_, hopening⟩⟩ := run_keeps_imports {} { tree := typeImport } w' ht hheld hshape
    (.inl ⟨report, hrun⟩) 1 (.step (of_decide_eq_true hp) .refl) hk
  · rw [hchildren] at hsame
    exact absurd hsame (by decide +kernel)
  · exact ⟨report, w', hrun, hprint, hsource.trans (by decide +kernel), hchildren, hopening.trans (by decide +kernel)⟩

end DeadCode
