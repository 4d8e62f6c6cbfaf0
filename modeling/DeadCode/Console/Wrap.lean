import DeadCode.Text.Blank
import DeadCode.Text.Cluster
import DeadCode.Text.Lines

/-!
Laying out text in a given number of columns. Tabs become blanks, lines break between words, and a word
longer than a line is cut or folded. `nextWord_append`: cutting off a word loses nothing.
-/

namespace DeadCode.Console

/-- What becomes of a word longer than a line. -/
inductive Overflow where
  | ellipsis | fold
  deriving DecidableEq

/-- Where a line stands in its columns; `free` puts no blanks around it. -/
inductive Side where
  | left | right | free
  deriving DecidableEq

/-! ## Tabs -/

/-- Cuts behind every tab. -/
def tabStretches : List Char → List (List Char)
  | [] => []
  | c :: rest =>
    if c = '\t' then [c] :: tabStretches rest
    else
      match tabStretches rest with
      | [] => [[c]]
      | l :: ls => (c :: l) :: ls

/-- A tab takes at least one blank and ends at a multiple of eight columns. -/
def expandFrom (column : Nat) : List (List Char) → List Char
  | [] => []
  | l :: ls =>
    if l.getLast? = some '\t' then
      let shown := l.dropLast ++ [' ']
      let reached := column + Text.width shown
      let blanks := (8 - reached % 8) % 8
      shown ++ List.replicate blanks ' ' ++ expandFrom (reached + blanks) ls
    else l ++ expandFrom (column + Text.width l) ls

def expandTabs (line : List Char) : List Char := expandFrom 0 (tabStretches line)

/-! ## Words -/

/-- A word and the blanks behind it, and the rest; blanks at the front belong to the word. -/
def nextWord (cs : List Char) : List Char × List Char :=
  let lead := cs.takeWhile Text.isBlank
  let behind := cs.dropWhile Text.isBlank
  let body := behind.takeWhile (!Text.isBlank ·)
  let after := behind.dropWhile (!Text.isBlank ·)
  (lead ++ body ++ after.takeWhile Text.isBlank, after.dropWhile Text.isBlank)

/-- Each round passes at least one character. -/
def wordsFrom : Nat → List Char → List (List Char)
  | 0, _ => []
  | fuel + 1, cs =>
    if cs.all Text.isBlank then []
    else (nextWord cs).1 :: wordsFrom fuel (nextWord cs).2

def words (cs : List Char) : List (List Char) := wordsFrom cs.length cs

theorem nextWord_append (cs : List Char) : (nextWord cs).1 ++ (nextWord cs).2 = cs := by
  simp [nextWord]

def trimEnd (cs : List Char) : List Char := (cs.reverse.dropWhile Text.isBlank).reverse

/-! ## Breaking lines -/

/-- The lines that are full, and the one begun with the columns it takes. -/
structure Filling where
  full : List (List Char) := []
  line : List Char := []
  used : Nat := 0

namespace Filling

def isEmpty (f : Filling) : Bool := f.full.isEmpty && f.line.isEmpty

/-- Begins a new line with a word. -/
def next (f : Filling) (word : List Char) : Filling :=
  if f.isEmpty then { f with line := word, used := Text.width word }
  else ⟨f.full ++ [f.line], word, Text.width word⟩

def add (columns : Nat) (overflow : Overflow) (f : Filling) (word : List Char) : Filling :=
  let needed := Text.width (trimEnd word)
  if f.used + needed ≤ columns then
    { f with line := f.line ++ word, used := f.used + Text.width word }
  else if columns < needed then
    match overflow with
    | .fold => (Text.fold columns word).foldl next f
    | .ellipsis => f.next word
  else if f.used = 0 ∨ f.isEmpty then { f with line := f.line ++ word }
  else f.next word

end Filling

/-- The lines of one line without tabs. Their characters are those of the line. -/
def broken (columns : Nat) (overflow : Overflow) (line : List Char) : List (List Char) :=
  match words line with
  | [] => [line]
  | ws =>
    let f := ws.foldl (Filling.add columns overflow) {}
    f.full ++ [f.line]

/-! ## Fitting a line -/

/-- Drops blanks at the end as far as the line has more characters than columns. -/
def cropBlanks (columns : Nat) (line : List Char) : List Char :=
  let excess := line.length - columns
  let blanks := (line.reverse.takeWhile Text.isBlank).length
  line.take (line.length - min excess blanks)

def truncated (columns : Nat) (overflow : Overflow) (line : List Char) : List Char :=
  if Text.width line ≤ columns then line
  else
    match overflow with
    | .ellipsis => Text.fit (columns - 1) line ++ ['…']
    | .fold => Text.fit columns line

def placed (columns : Nat) (side : Side) (overflow : Overflow) (line : List Char) : List Char :=
  match side with
  | .free => truncated columns overflow line
  | .left =>
    let shown := truncated columns overflow line
    Text.fit columns (shown ++ List.replicate (columns - Text.width shown) ' ')
  | .right =>
    let shown := truncated columns overflow (trimEnd line)
    Text.fit columns (List.replicate (columns - Text.width shown) ' ' ++ shown)

/-- A text in lines of the given number of columns. -/
def wrap (columns : Nat) (side : Side) (overflow : Overflow) (cs : List Char) : List (List Char) :=
  (Text.splitNewlines cs).flatMap fun line =>
    (broken columns overflow (expandTabs line)).map fun l =>
      placed columns side overflow (cropBlanks columns l)

end DeadCode.Console
