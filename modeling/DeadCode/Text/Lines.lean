import DeadCode.Text.Blank

/-!
Lines of a text. `splitNewlines` cuts at line feeds alone and loses nothing (`joinNewlines_splitNewlines`);
`lines` and `firstLine` end at any line boundary.
-/

namespace DeadCode.Text

def splitNewlines : List Char → List (List Char)
  | [] => [[]]
  | c :: rest =>
    if c = '\n' then [] :: splitNewlines rest
    else
      match splitNewlines rest with
      | [] => [[c]]
      | l :: ls => (c :: l) :: ls

def joinNewlines : List (List Char) → List Char
  | [] => []
  | [l] => l
  | l :: ls => l ++ '\n' :: joinNewlines ls

theorem splitNewlines_ne_nil (cs : List Char) : splitNewlines cs ≠ [] := by
  cases cs with
  | nil => simp [splitNewlines]
  | cons c rest =>
    unfold splitNewlines
    split
    · simp
    · split <;> simp

theorem joinNewlines_splitNewlines (cs : List Char) : joinNewlines (splitNewlines cs) = cs := by
  induction cs with
  | nil => rfl
  | cons c rest ih =>
    have hne := splitNewlines_ne_nil rest
    unfold splitNewlines
    split
    · next h =>
      cases hs : splitNewlines rest with
      | nil => exact absurd hs hne
      | cons l ls => rw [hs] at ih; simp [joinNewlines, ih, h]
    · split
      · next hs => exact absurd hs hne
      · next l ls hs =>
        rw [hs] at ih
        cases ls with
        | nil => simpa [joinNewlines] using ih
        | cons m ms => simpa [joinNewlines] using ih

/-- Drops every line that holds nothing but blanks. -/
def stripBlankLines (s : String) : String :=
  String.ofList (joinNewlines ((splitNewlines s.toList).filter fun l => l.any (!isBlank ·)))

/-- Line feed, vertical tab, form feed, carriage return, the file, group and record separators, next line,
and the line and paragraph separators. -/
def isLineBoundary (c : Char) : Bool :=
  within [(0x0A, 0x0D), (0x1C, 0x1E), (0x85, 0x85), (0x2028, 0x2029)] c

/-- The text up to the first line boundary. -/
def firstLine (s : String) : String := String.ofList (s.toList.takeWhile (!isLineBoundary ·))

/-- The stretches between line boundaries. -/
def lines : List Char → List (List Char)
  | [] => [[]]
  | c :: rest =>
    if isLineBoundary c then [] :: lines rest
    else
      match lines rest with
      | [] => [[c]]
      | l :: ls => (c :: l) :: ls

/-- Carriage returns, alone or before a line feed, read as line feeds. -/
def unifyNewlines : List Char → List Char
  | '\r' :: '\n' :: rest => '\n' :: unifyNewlines rest
  | '\r' :: rest => '\n' :: unifyNewlines rest
  | c :: rest => c :: unifyNewlines rest
  | [] => []

end DeadCode.Text
