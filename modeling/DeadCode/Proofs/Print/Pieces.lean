import DeadCode.Proofs.Lists
import DeadCode.Proofs.Tree.Consistent

/-!
The printed text in pieces: the tokens, which are the texts of the leaves, and the gaps around them. The pieces
spell what is printed (`spell_printed`), the tokens are the leaves in the order of the tree (`tokens_pieces`), and
between two tokens stands the whole leading text of the node that holds the second and not the first
(`pieces_split`).
-/

namespace DeadCode

inductive Piece where
  | token (node : NodeId) (text : String)
  | gap (text : String)
  deriving DecidableEq

def Piece.text : Piece → String
  | .token _ text => text
  | .gap text => text

def spell (ps : List Piece) : String := String.join (ps.map Piece.text)

/-- The leaves among the pieces. -/
def tokens (ps : List Piece) : List NodeId := ps.filterMap fun
  | .token n _ => some n
  | .gap _ => none

namespace Tree

/-- What stands for a dropped comment. -/
def commentGap (text : String) : String := if isBlockComment text then " " else ""

/-- The pieces of a subtree with comments dropped, without its own leading text. -/
def pieces (t : Tree) : Nat → NodeId → List Piece
  | 0, _ => []
  | fuel + 1, n =>
    if t.kind n = .comment then [.gap (commentGap (t.text n))]
    else if (t.children n).isEmpty then [.token n (t.text n), .gap (t.node n).trailing]
    else (t.children n).flatMap (fun c => .gap (t.node c).leading :: t.pieces fuel c) ++
      [.gap (t.node n).trailing]

def printed (t : Tree) : List Piece := .gap (t.node t.root).leading :: t.pieces t.size t.root

/-- A leaf whose text is printed. -/
def isToken (t : Tree) (n : NodeId) : Bool := (t.children n).isEmpty && t.kind n != .comment

end Tree

theorem spell_append (ps qs : List Piece) : spell (ps ++ qs) = spell ps ++ spell qs := by
  rw [spell, List.map_append, String.join_append, spell, spell]

theorem spell_cons (p : Piece) (ps : List Piece) : spell (p :: ps) = p.text ++ spell ps := by
  rw [spell, List.map_cons, String.join_cons, spell]

theorem spell_singleton (p : Piece) : spell [p] = p.text := by
  rw [spell_cons]
  exact String.append_empty

theorem spell_flatMap {α : Type} (f : α → List Piece) (l : List α) :
    spell (l.flatMap f) = String.join (l.map fun c => spell (f c)) := by
  induction l with
  | nil => rfl
  | cons c l ih => rw [List.flatMap_cons, spell_append, ih, List.map_cons, String.join_cons]

theorem tokens_append (ps qs : List Piece) : tokens (ps ++ qs) = tokens ps ++ tokens qs :=
  List.filterMap_append

theorem tokens_token (n : NodeId) (x : String) (ps : List Piece) : tokens (.token n x :: ps) = n :: tokens ps := rfl

namespace Tree

variable {t : Tree} {j k : Nat} {n a b : NodeId} {x z : String} {pre mid post : List Piece}

/-! ## The pieces of a comment, of a leaf and of any other node -/

theorem pieces_comment (h : t.kind n = .comment) : t.pieces (k + 1) n = [.gap (commentGap (t.text n))] := by
  rw [pieces, if_pos h]

theorem pieces_leaf (h : t.kind n ≠ .comment) (hleaf : t.children n = []) :
    t.pieces (k + 1) n = [.token n (t.text n), .gap (t.node n).trailing] := by
  rw [pieces, if_neg h, hleaf]
  rfl

theorem pieces_inner (h : t.kind n ≠ .comment) (hinner : t.children n ≠ []) : t.pieces (k + 1) n =
    (t.children n).flatMap (fun c => .gap (t.node c).leading :: t.pieces k c) ++ [.gap (t.node n).trailing] := by
  rw [pieces, if_neg h, if_neg (by simpa using hinner)]

/-- The pieces of a subtree spell what it prints. -/
theorem spell_pieces (t : Tree) (k : Nat) (n : NodeId) : spell (t.pieces k n) = t.print .dropped k n := by
  induction k generalizing n with
  | zero => rfl
  | succ k ih =>
    by_cases hcomment : t.kind n = .comment
    · have hk : (t.node n).kind = .comment := hcomment
      rw [pieces_comment hcomment, spell_singleton, print]
      simp only [hk, and_self, if_true]
      rfl
    · have hk : (t.node n).kind ≠ .comment := hcomment
      rw [print]
      simp only [hk, and_false, if_false]
      by_cases hleaf : t.children n = []
      · have hnil : (t.node n).children = [] := hleaf
        rw [pieces_leaf hcomment hleaf, spell_cons, spell_singleton, hnil]
        rfl
      · have hcons : (t.node n).children.isEmpty = false := by simpa using show (t.node n).children ≠ [] from hleaf
        rw [pieces_inner hcomment hleaf, spell_append, spell_singleton, spell_flatMap, hcons]
        refine congrArg (fun s => String.join s ++ _) (List.map_congr_left fun c _ => ?_)
        rw [spell_cons, ih]
        rfl

theorem spell_printed (t : Tree) : spell t.printed = t.render := by
  rw [printed, spell_cons, spell_pieces, render]
  rfl

/-! ## Tokens -/

/-- A token of a subtree is a leaf of it, with its text. -/
theorem token_of_mem (h : .token a x ∈ t.pieces k n) : a ∈ t.descend k n ∧ t.isToken a = true ∧ x = t.text a := by
  induction k generalizing n with
  | zero => exact absurd h List.not_mem_nil
  | succ k ih =>
    rw [descend, List.mem_cons, List.mem_flatMap]
    by_cases hcomment : t.kind n = .comment
    · rw [pieces_comment hcomment] at h
      simp at h
    by_cases hleaf : t.children n = []
    · rw [pieces_leaf hcomment hleaf] at h
      obtain ⟨rfl, rfl⟩ : a = n ∧ x = t.text n := by simpa using h
      exact ⟨.inl rfl, by simp [isToken, hcomment, hleaf], rfl⟩
    · rw [pieces_inner hcomment hleaf] at h
      obtain ⟨c, hc, hin⟩ : ∃ c ∈ t.children n, .token a x ∈ t.pieces k c := by simpa using h
      obtain ⟨hbelow, htoken⟩ := ih hin
      exact ⟨.inr ⟨c, hc, hbelow⟩, htoken⟩

/-- The tokens of a subtree are its leaves in their order, as long as comments are leaves. -/
theorem tokens_pieces (hcomments : ∀ m, t.kind m = .comment → t.children m = []) (k : Nat) (n : NodeId) :
    tokens (t.pieces k n) = (t.descend k n).filter t.isToken := by
  induction k generalizing n with
  | zero => rfl
  | succ k ih =>
    rw [descend, List.filter_cons, List.filter_flatMap]
    by_cases hcomment : t.kind n = .comment
    · rw [pieces_comment hcomment, if_neg (by simp [isToken, hcomment]), hcomments n hcomment]
      rfl
    by_cases hleaf : t.children n = []
    · rw [pieces_leaf hcomment hleaf, if_pos (by simp [isToken, hcomment, hleaf]), hleaf]
      rfl
    · rw [pieces_inner hcomment hleaf, if_neg (by simp [isToken, hleaf]), tokens_append]
      change tokens _ ++ [] = _
      rw [List.append_nil, tokens, List.filterMap_flatMap]
      exact List.flatMap_congr fun c _ => ih c

theorem pieces_mono (hjk : j ≤ k) (h : t.Grounded j n) : t.pieces k n = t.pieces j n := by
  induction j generalizing k n with
  | zero => exact h.elim
  | succ j ih =>
    obtain ⟨k, rfl⟩ : ∃ m, k = m + 1 := ⟨k - 1, by omega⟩
    have hchildren : (t.children n).flatMap (fun c => .gap (t.node c).leading :: t.pieces k c) =
        (t.children n).flatMap fun c => .gap (t.node c).leading :: t.pieces j c :=
      List.flatMap_congr fun c hc => by rw [ih (by omega) (h c hc)]
    rw [pieces, pieces, hchildren]

/-! ## Between two tokens -/

/-- What stands between two tokens: of the children of some node `r` the child `c` holds the first, the later
child `s` holds the second, and the leading text of `s` and all that the children between them print is there. -/
structure Between (t : Tree) (a b : NodeId) (mid : List Piece) (r c s : NodeId) (inner : List NodeId) : Prop where
  children : ∃ before behind, t.children r = before ++ c :: (inner ++ s :: behind)
  first : t.Below c a
  second : t.Below s b
  gap : .gap (t.node s).leading ∈ mid
  inner : ∀ d ∈ inner, ∀ p ∈ t.pieces t.size d, p ∈ mid

/-- Two tokens of the children of one node stand in one of the children, or in two of them. -/
theorem between_children (ht : t.Consistent) (hk : k ≤ t.size) (hg : t.Grounded (k + 1) n)
    (h : (t.children n).flatMap (fun c => .gap (t.node c).leading :: t.pieces k c) =
      pre ++ .token a x :: (mid ++ .token b z :: post)) :
    (∃ c ∈ t.children n, ∃ pre post, t.pieces k c = pre ++ .token a x :: (mid ++ .token b z :: post)) ∨
      ∃ c s inner, t.Between a b mid n c s inner := by
  have hbelow : ∀ {c w y}, .token w y ∈ (.gap (t.node c).leading :: t.pieces k c) → t.Below c w := by
    intro c w y hw
    have hw : .token w y ∈ t.pieces k c := by simpa using hw
    exact below_of_mem_descend ht (token_of_mem hw).1
  rcases Lists.flatMap_split_pair h with ⟨c, hc, p, q, hsame⟩ | ⟨l₁, c, l₂, s, l₃, p, p', q, q', hl, hc, hs, rfl⟩
  · cases p with
    | nil => cases (List.cons.inj hsame).1
    | cons g p => exact .inl ⟨c, hc, p, q, (List.cons.inj hsame).2⟩
  · refine .inr ⟨c, s, l₂, ⟨l₁, l₃, hl⟩, hbelow (y := x) (by rw [hc]; simp),
      hbelow (y := z) (by rw [hs]; simp), ?_, fun d hd p hp => ?_⟩
    · cases q with
      | nil => cases (List.cons.inj hs).1
      | cons g q =>
        obtain ⟨rfl, _⟩ := List.cons.inj hs
        simp
    · have hmem : d ∈ t.children n := by rw [hl]; simp [hd]
      rw [pieces_mono hk (hg d hmem)] at hp
      simp only [List.mem_append, List.mem_flatMap]
      exact .inl (.inr ⟨d, hd, List.mem_cons_of_mem _ hp⟩)

theorem pieces_split (ht : t.Consistent) (hk : k ≤ t.size) (hg : t.Grounded k n)
    (h : t.pieces k n = pre ++ .token a x :: (mid ++ .token b z :: post)) :
    ∃ r c s inner, t.Below n r ∧ t.Between a b mid r c s inner := by
  induction k generalizing n pre post with
  | zero => simp [pieces] at h
  | succ k ih =>
    have htwo : ¬ (tokens (t.pieces (k + 1) n)).length ≤ 1 := by
      rw [h]
      simp only [tokens_append, tokens_token, List.length_append, List.length_cons]
      omega
    by_cases hcomment : t.kind n = .comment
    · exact absurd (by rw [pieces_comment hcomment]; exact Nat.zero_le _) htwo
    by_cases hleaf : t.children n = []
    · exact absurd (by rw [pieces_leaf hcomment hleaf]; exact le_rfl) htwo
    rw [pieces_inner hcomment hleaf] at h
    -- the last piece is a gap, so both tokens come from the children
    rcases List.eq_nil_or_concat post with rfl | ⟨post, p, rfl⟩
    · have hsplit : pre ++ .token a x :: (mid ++ [.token b z]) = (pre ++ .token a x :: mid) ++ [.token b z] := by
        simp
      rw [hsplit] at h
      cases (List.append_inj' h rfl).2
    · have hsplit : pre ++ .token a x :: (mid ++ .token b z :: post.concat p) =
          (pre ++ .token a x :: (mid ++ .token b z :: post)) ++ [p] := by simp
      rw [hsplit] at h
      rcases between_children ht (by omega) hg (List.append_inj' h rfl).1 with ⟨c, hc, pre, post, hsame⟩ | hbetween
      · obtain ⟨r, c', s, inner, hr, hbetween⟩ := ih (by omega) (hg c hc) hsame
        exact ⟨r, c', s, inner, (Below.of_parent ((ht.mem_children n c).mp hc)).trans hr, hbetween⟩
      · obtain ⟨c, s, inner, hbetween⟩ := hbetween
        exact ⟨n, c, s, inner, .refl, hbetween⟩

/-- Between any two tokens of the printed text stand two children of one node. -/
theorem printed_split (ht : t.Consistent) (h : t.printed = pre ++ .token a x :: (mid ++ .token b z :: post)) :
    ∃ r c s inner, t.Below t.root r ∧ t.Between a b mid r c s inner := by
  cases pre with
  | nil => cases (List.cons.inj h).1
  | cons p pre => exact pieces_split ht le_rfl (Below.refl.grounded ht) (List.cons.inj h).2

end Tree
end DeadCode
