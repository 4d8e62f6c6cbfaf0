import DeadCode.Proofs.Names.Crawl
import DeadCode.Proofs.Names.Frame

/-!
Closed cuts. A cut is closed if whatever refers to a name declared in what leaves, leaves too. Then the
names of the tree are resolved as before: the scopes, the bindings, the redeclarations and the uses after
the cut are those before less what left (`bindings_cut`, `redeclared_cut`, `used_cut`), and no name is
re-pointed.
-/

namespace DeadCode.Tree

/-- The references that are made by name, those of export statements apart. -/
def named (t : Tree) : List (NodeId × NodeId) := t.redeclared ++ t.used

/-- What refers to a node of `off` is in `off`. -/
def Closed (refs : List (NodeId × NodeId)) (off : List NodeId) : Prop :=
  ∀ r ∈ refs, r.2 ∈ off → r.1 ∈ off

variable {t t' : Tree} {q n m : NodeId} {gone : List NodeId}

theorem isScope_fresh (ht : t.Consistent) (h : Cut t t' q n gone) (hm : t.size ≤ m)
    (hlt : m < t'.size) : t'.isScope m = false := by
  have hroot : m ≠ t'.root := fun he => by
    rw [he, h.root] at hm
    exact absurd ht.root_lt (not_lt.mpr hm)
  simp [isScope, scopeOpened?, opens?, hroot, h.fresh_kind m hm hlt, Kind.isFunction, Kind.isClass,
    Kind.isBlock]

theorem declarationsOf_fresh (h : Cut t t' q n gone) (hm : t.size ≤ m) (hlt : m < t'.size) :
    t'.declarationsOf m = [] := by
  simp only [declarationsOf, Visit.declarationsAt, visitOf, h.fresh_kind m hm hlt]

theorem isUse_fresh (h : Cut t t' q n gone) (hm : t.size ≤ m) (hlt : m < t'.size) : t'.isUse m = false := by
  simp [isUse, h.fresh_kind m hm hlt, Kind.isReference]

theorem text_declared (ht : t.Consistent) (h : Cut t t' q n gone) {d : Declaration NodeId}
    (hd : d ∈ t.declarations) : t'.text d.identifier = t.text d.identifier :=
  h.text_eq _ ((declared_attached ht hd).lt_size ht)

theorem refers_stays (ht : t.Consistent) (hs : t.Framed) (h : Pruning t t' q n gone) (hm : Stays t gone m) :
    t'.refers m = t.refers m := by
  unfold refers
  rw [h.cut.parent_stays ht hm, h.cut.field_eq m (hm.lt_size ht)]
  cases hp : t.parent m with
  | none => rfl
  | some p =>
    have hps := hm.parent ht hp
    have hkind : t'.kind p = t.kind p := h.cut.kind_eq p (hps.lt_size ht)
    simp only [hkind, h.cut.parent_stays ht hps]
    by_cases hk : t.kind p = .exportSpecifier
    · cases hc : t.parent p with
      | none => rfl
      | some c =>
        have hcs := hps.parent ht hc
        obtain ⟨s, hs', hks⟩ := hs.exportSpecifier p c hps.1 hk hc
        have hsource : t'.child? s .source = t.child? s .source :=
          (h.child?_of_not_site ht (by rw [hks]; rfl)).1
        simp only [Option.bind_some, h.cut.parent_stays ht hcs, hs', hsource]
    · simp only [hk, if_false]

section Cut

variable (ht : t.Consistent) (hs : t.Framed) (h : Pruning t t' q n gone) (hq : t.Below t.root q)

include ht h

theorem lt_size_of_mem_walk_cut (hm : m ∈ t'.walk) : m < t'.size :=
  lt_size_of_mem_walk (h.cut.consistent ht) hm

include hq

/-- Nodes that a fresh leaf is none of are those that stayed. -/
theorem walk_filter_cut {p : NodeId → Bool} (hp : ∀ m, t.size ≤ m → m < t'.size → p m = false) :
    t'.walk.filter p = (t.walk.filter (· ∉ t.offcut gone)).filter p := by
  rw [← h.cut.walk_eq ht hq, List.filter_filter]
  refine List.filter_congr fun m hm => ?_
  rcases lt_or_ge m t.size with hlt | hge
  · simp [hlt]
  · simp [hp m hge (lt_size_of_mem_walk_cut ht h hm)]

theorem walk_flatMap_cut {α : Type} {f f' : NodeId → List α}
    (hfresh : ∀ m, t.size ≤ m → m < t'.size → f' m = []) (hf : ∀ m, Stays t gone m → f' m = f m) :
    t'.walk.flatMap f' = (t.walk.filter (· ∉ t.offcut gone)).flatMap f := by
  rw [← h.cut.walk_eq ht hq, ← Lists.flatMap_filter_of_nil (p := (decide <| · < t.size)) (l := t'.walk)]
  · refine List.flatMap_congr fun m hm => hf m ?_
    rw [h.cut.walk_eq ht hq] at hm
    obtain ⟨hm, hoff⟩ := List.mem_filter.mp hm
    exact (stays_iff_mem ht h.cut hq).mpr ⟨hm, by simpa using hoff⟩
  · intro m hm hlt
    exact hfresh m (not_lt.mp (of_decide_eq_false hlt)) (lt_size_of_mem_walk_cut ht h hm)

theorem scopeNodes_cut : t'.scopeNodes = t.scopeNodes.filter (· ∉ t.offcut gone) := by
  rw [scopeNodes, walk_filter_cut ht h hq fun m => isScope_fresh ht h.cut, scopeNodes,
    List.filter_filter, List.filter_filter]
  refine List.filter_congr fun m hm => ?_
  by_cases hoff : m ∈ t.offcut gone
  · simp [hoff]
  · rw [h.cut.isScope_stays ht ((stays_iff_mem ht h.cut hq).mpr ⟨hm, hoff⟩), Bool.and_comm]

include hs

/-- The declarations left are those whose identifiers did not leave. -/
theorem declarations_cut :
    t'.declarations = t.declarations.filter (·.identifier ∉ t.offcut gone) := by
  rw [declarations, walk_flatMap_cut ht h hq (fun m => declarationsOf_fresh h.cut)
    (fun m hm => declarationsOf_stays ht hs h hq hm), declarations, List.filter_flatMap]
  refine Lists.flatMap_filter_of_nil fun m hm hoff => ?_
  -- what leaves takes the identifiers it declares with it
  refine List.filter_eq_nil_iff.mpr fun d hd => ?_
  have hoff : m ∈ t.offcut gone := by simpa using hoff
  obtain ⟨g, hg, hb⟩ := (h.cut.mem_offcut_iff ht hq).mp hoff
  simpa using (h.cut.mem_offcut_iff ht hq).mpr ⟨g, hg, hb.trans (declarer_below ht hd)⟩

theorem declaring_cut (hm : m ∉ t.offcut gone) : m ∈ t'.declaring ↔ m ∈ t.declaring := by
  simp only [declaring, declarations_cut ht hs h hq, List.mem_map, List.mem_filter, decide_eq_true_eq]
  constructor
  · rintro ⟨d, ⟨hd, _⟩, rfl⟩
    exact ⟨d, hd, rfl⟩
  · rintro ⟨d, hd, rfl⟩
    exact ⟨d, ⟨hd, hm⟩, rfl⟩

theorem isUse_stays (hm : Stays t gone m) : t'.isUse m = t.isUse m := by
  have hoff := ((stays_iff_mem ht h.cut hq).mp hm).2
  have hdeclaring : t'.declaring.contains m = t.declaring.contains m := by
    rw [Bool.eq_iff_iff, List.contains_iff_mem, List.contains_iff_mem]
    exact declaring_cut ht hs h hq hoff
  rw [isUse, isUse, h.cut.kind_eq m (hm.lt_size ht), hdeclaring, refers_stays ht hs h hm]

/-- The occurrences left that count as uses are those that did before. -/
theorem uses_cut : t'.walk.filter t'.isUse = (t.walk.filter t.isUse).filter (· ∉ t.offcut gone) := by
  rw [walk_filter_cut ht h hq fun m => isUse_fresh h.cut, List.filter_filter, List.filter_filter]
  refine List.filter_congr fun m hm => ?_
  by_cases hoff : m ∈ t.offcut gone
  · simp [hoff]
  · rw [isUse_stays ht hs h hq ((stays_iff_mem ht h.cut hq).mpr ⟨hm, hoff⟩), Bool.and_comm]

end Cut

/-! ## First declarations -/

section Closed

variable (ht : t.Consistent) (hs : t.Framed) (h : Pruning t t' q n gone) (hq : t.Below t.root q)
  (hc : Closed t.redeclared (t.offcut gone))

include ht hs h hq hc

/-- A name keeps its first declaration, or loses all its declarations with the first. -/
theorem declared?_cut (s : NodeId) (name : String) : t'.declared? s name =
    (t.declared? s name).filter fun d => d.identifier ∉ t.offcut gone := by
  have hkey : ∀ d ∈ t.declarations,
      decide (d.target = s ∧ t'.text d.identifier = name) =
        decide (d.target = s ∧ t.text d.identifier = name) := fun d hd => by
    rw [text_declared ht h.cut hd]
  have hfind : t'.declared? s name = (t.declarations.filter (·.identifier ∉ t.offcut gone)).find?
      fun d => d.target = s ∧ t.text d.identifier = name := by
    rw [declared?, firstOf?, declarations_cut ht hs h hq]
    exact Lists.find?_congr fun d hd => hkey d (List.mem_filter.mp hd).1
  rw [hfind]
  cases he : t.declared? s name with
  | none =>
    refine List.find?_eq_none.mpr fun d hd => ?_
    exact List.find?_eq_none.mp he d (List.mem_filter.mp hd).1
  | some e =>
    by_cases hoff : e.identifier ∈ t.offcut gone
    · simp only [Option.filter_some, hoff, not_true_eq_false, decide_false, Bool.false_eq_true, if_false]
      refine List.find?_eq_none.mpr fun d hd hmatch => ?_
      obtain ⟨hd, hstay⟩ := List.mem_filter.mp hd
      have hstay : d.identifier ∉ t.offcut gone := by simpa using hstay
      obtain ⟨rfl, rfl⟩ : d.target = s ∧ t.text d.identifier = name := by simpa using hmatch
      have hne : e ≠ d := fun hed => hstay (hed ▸ hoff)
      exact hstay (hc _ (mem_redeclared_iff.mpr ⟨d, hd, e, he, hne, rfl⟩) hoff)
    · simp only [Option.filter_some, hoff, not_false_eq_true, decide_true, if_true]
      exact Lists.find?_filter_of_some he (by simpa using hoff)

/-- The first declaration left of a name that `d` declares. -/
theorem firstOf?_cut {d : Declaration NodeId} (hd : d ∈ t.declarations) :
    t'.firstOf? (t.declarations.filter (·.identifier ∉ t.offcut gone)) d.target (t'.text d.identifier) =
      (t.declared? d.target (t.text d.identifier)).filter fun e => e.identifier ∉ t.offcut gone := by
  rw [← declarations_cut ht hs h hq, text_declared ht h.cut hd]
  exact declared?_cut ht hs h hq hc _ _

theorem bindings_cut : t'.bindings = t.bindings.filter (·.identifier ∉ t.offcut gone) := by
  have hdecl := declarations_cut ht hs h hq
  rw [bindings, introducing, hdecl, bindings, introducing, List.filter_filter, List.filter_filter]
  refine List.filter_congr fun d hd => ?_
  rw [firstOf?_cut ht hs h hq hc hd]
  change _ = (_ && decide (t.declared? d.target (t.text d.identifier) = some d))
  by_cases hoff : d.identifier ∈ t.offcut gone
  · simp [hoff]
  · cases he : t.declared? d.target (t.text d.identifier) with
    | none => simp
    | some e =>
      by_cases hed : e = d
      · simp [hed, hoff]
      · by_cases heoff : e.identifier ∈ t.offcut gone <;> simp [hed]

theorem redeclared_cut : t'.redeclared = t.redeclared.filter (·.1 ∉ t.offcut gone) := by
  have hdecl := declarations_cut ht hs h hq
  rw [redeclared, repeating, hdecl, List.filterMap_filter, redeclared, repeating, List.filter_filterMap]
  refine List.filterMap_congr fun d hd => ?_
  rw [firstOf?_cut ht hs h hq hc hd]
  change _ = Option.filter _ ((t.declared? d.target (t.text d.identifier)).bind _)
  obtain ⟨e, he⟩ := firstOf?_isSome (t := t) hd
  have he : t.declared? d.target (t.text d.identifier) = some e := he
  by_cases hoff : d.identifier ∈ t.offcut gone
  · by_cases hed : e = d
    · simp [he, hed]
    · simp [he, hed, hoff, Option.filter_some]
  · by_cases hed : e = d
    · simp [he, hed, hoff, Option.filter_some]
    · have heoff : e.identifier ∉ t.offcut gone := fun heoff =>
        hoff (hc _ (mem_redeclared_iff.mpr ⟨d, hd, e, he, hed, rfl⟩) heoff)
      simp [he, hed, hoff, heoff, Option.filter_some]

/-- What a name resolves to after the cut, unless that left. -/
theorem resolve?_cut {s : NodeId} (hst : Stays t gone s) {name : String}
    (hres : ∀ d, t.resolve? s name = some d → d.identifier ∉ t.offcut gone) :
    t'.resolve? s name = t.resolve? s name := by
  have hdeclared : ∀ a, t'.declared? a name =
      (t.declared? a name).filter fun d => d.identifier ∉ t.offcut gone := fun a =>
    declared?_cut ht hs h hq hc a name
  rw [resolve?, resolve?, h.cut.scopeChain_stays ht hst]
  cases hr : (t.scopeChain s).findSome? (t.declared? · name) with
  | none =>
    refine List.findSome?_eq_none_iff.mpr fun a ha => ?_
    rw [hdeclared, List.findSome?_eq_none_iff.mp hr a ha]
    rfl
  | some d =>
    obtain ⟨as, a, bs, hsplit, ha, has⟩ := List.findSome?_eq_some_iff.mp hr
    refine List.findSome?_eq_some_iff.mpr ⟨as, a, bs, hsplit, ?_, fun b hb => ?_⟩
    · rw [hdeclared, ha]
      simp [hres d hr]
    · rw [hdeclared, has b hb]
      rfl

end Closed

/-! ## Uses and exports -/

section References

variable (ht : t.Consistent) (hs : t.Framed) (h : Pruning t t' q n gone) (hq : t.Below t.root q)

theorem Closed.mono {refs refs' : List (NodeId × NodeId)} {off : List NodeId} (hc : Closed refs off)
    (hsub : ∀ r ∈ refs', r ∈ refs) : Closed refs' off :=
  fun r hr => hc r (hsub r hr)

theorem redeclared_subset_named : ∀ r ∈ t.redeclared, r ∈ t.named :=
  fun _ hr => List.mem_append_left _ hr

theorem used_subset_named : ∀ r ∈ t.used, r ∈ t.named := fun _ hr => List.mem_append_right _ hr

theorem named_attached (ht : t.Consistent) {r : NodeId × NodeId} (hr : r ∈ t.named) :
    t.Below t.root r.1 := by
  rcases List.mem_append.mp hr with hr | hr
  · obtain ⟨d, hd, _, _, _, rfl⟩ := mem_redeclared_iff.mp hr
    exact declared_attached ht hd
  · obtain ⟨m, hm, _, _, _, rfl⟩ := mem_used_iff.mp hr
    exact (mem_walk_iff ht).mp hm

include ht hs h hq

/-- The uses after a closed cut are those before, each of the same declaration. -/
theorem used_cut (hc : Closed t.named (t.offcut gone)) :
    t'.used = t.used.filter (·.1 ∉ t.offcut gone) := by
  rw [used, uses_cut ht hs h hq, List.filterMap_filter, used, List.filter_filterMap]
  refine List.filterMap_congr fun m hm => ?_
  obtain ⟨hwalk, huse⟩ := List.mem_filter.mp hm
  by_cases hoff : m ∈ t.offcut gone
  · cases t.resolve? (t.scopeNode m) (t.text m) <;> simp [hoff, Option.filter_some]
  · have hst : Stays t gone m := (stays_iff_mem ht h.cut hq).mpr ⟨hwalk, hoff⟩
    have hres : ∀ d, t.resolve? (t.scopeNode m) (t.text m) = some d → d.identifier ∉ t.offcut gone :=
      fun d hd hd' => hoff (hc _ (used_subset_named _ (mem_used_iff.mpr ⟨m, hwalk, huse, d, hd, rfl⟩)) hd')
    have hscope : Stays t gone (t.scopeNode m) := hst.of_below ht (scopeNode_below ht hst.1)
    rw [h.cut.scopeNode_stays ht hst, h.cut.text_eq m (hst.lt_size ht),
      resolve?_cut ht hs h hq (hc.mono redeclared_subset_named) hscope hres]
    cases t.resolve? (t.scopeNode m) (t.text m) <;> simp [hoff, Option.filter_some]

/-- No name is re-pointed by a closed cut. -/
theorem named_cut (hc : Closed t.named (t.offcut gone)) :
    t'.named = t.named.filter (·.1 ∉ t.offcut gone) := by
  rw [named, redeclared_cut ht hs h hq (hc.mono redeclared_subset_named), used_cut ht hs h hq hc, named,
    List.filter_append]

end References

end DeadCode.Tree
