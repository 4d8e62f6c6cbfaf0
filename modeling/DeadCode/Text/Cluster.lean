import DeadCode.Text.Width

/-!
Clusters: the stretches of a text that are shown as one, a character with the marks and joined characters
behind it. Text is cut between clusters; half of a wide one becomes a blank. `text_ofText`: the clusters of a
text spell it.
-/

namespace DeadCode.Text

structure Cluster where
  chars : List Char
  width : Nat
  deriving DecidableEq, Inhabited

namespace Cluster

def extend (k : Cluster) (cs : List Char) (gain : Nat := 0) : Cluster :=
  ⟨k.chars ++ cs, k.width + gain⟩

/-- `current` is the cluster begun, and `last` its character that took a column. -/
def scan (current : Cluster) (last : Option Char) : List Char → List Cluster
  | [] => [current]
  | c :: rest =>
    if c = joiner then
      match rest with
      | [] => [current.extend [c]]
      | d :: after => scan (current.extend [c, d]) last after
    else if c = emojiForm then
      let gain := emojiGain last
      scan (current.extend [c] gain) (if gain = 0 then last else none) rest
    else if charWidth c = 0 then scan (current.extend [c]) last rest
    else current :: scan ⟨[c], charWidth c⟩ (some c) rest

/-- A joiner or selector at the very front stands by itself. -/
def ofText : List Char → List Cluster
  | [] => []
  | c :: rest =>
    if c = joiner ∨ c = emojiForm ∨ charWidth c = 0 then scan ⟨[c], 0⟩ none rest
    else scan ⟨[c], charWidth c⟩ (some c) rest

def text (ks : List Cluster) : List Char := ks.flatMap chars

theorem text_scan (current : Cluster) (last : Option Char) (cs : List Char) :
    text (scan current last cs) = current.chars ++ cs := by
  fun_induction scan current last cs with
  | case1 => simp [text]
  | case2 => simp [text, extend]
  | case3 _ _ _ _ ih => simpa [extend] using ih
  | case4 _ _ _ _ _ ih => simpa [extend] using ih
  | case5 _ _ _ _ _ _ _ ih => simpa [extend] using ih
  | case6 _ _ _ _ _ _ _ ih => simpa [text] using ih

theorem text_ofText (cs : List Char) : text (ofText cs) = cs := by
  cases cs with
  | nil => rfl
  | cons c rest =>
    rw [ofText]
    split <;> rw [text_scan] <;> rfl

/-- The clusters that fill `columns` columns from the front. -/
def take (columns : Nat) : List Cluster → List Char
  | [] => []
  | k :: ks =>
    if k.width ≤ columns then k.chars ++ (if columns = k.width then [] else take (columns - k.width) ks)
    else List.replicate columns ' '

/-- Lines of at most `columns` columns; `line` is the one begun, `used` its columns. -/
def foldFrom (columns : Nat) (line : List Char) (used : Nat) : List Cluster → List (List Char)
  | [] => if line.isEmpty then [] else [line]
  | k :: ks =>
    if columns < used + k.width then line :: foldFrom columns k.chars k.width ks
    else foldFrom columns (line ++ k.chars) (used + k.width) ks

end Cluster

/-- A text cut or filled up with blanks to the given number of columns. -/
def fit (columns : Nat) (cs : List Char) : List Char :=
  if width cs ≤ columns then cs ++ List.replicate (columns - width cs) ' '
  else if columns = 0 then []
  else Cluster.take columns (Cluster.ofText cs)

/-- A text in lines of at most `columns` columns. -/
def fold (columns : Nat) (cs : List Char) : List (List Char) :=
  Cluster.foldFrom columns [] 0 (Cluster.ofText cs)

end DeadCode.Text
