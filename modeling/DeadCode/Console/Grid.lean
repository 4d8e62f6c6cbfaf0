import DeadCode.Console.Lines

/-!
Titled tables with ruled columns. A column is as wide as its widest cell as long as the console has room, with
one blank on either side; the title stands centred above. A tab counts nothing for the width of its cell, and
every line boundary ends a line there, so that a cell can turn out longer than its column and is wrapped.
-/

namespace DeadCode.Console

/-- The four characters of a rule or row: left end, filling, divider, right end. -/
structure Rule where
  left : String
  filling : String
  divider : String
  right : String
  deriving DecidableEq

structure Frame where
  top : Rule
  header : Rule
  separator : Rule
  row : Rule
  bottom : Rule
  deriving DecidableEq

def Frame.heavyHead : Frame where
  top := ⟨"┏", "━", "┳", "┓"⟩
  header := ⟨"┃", " ", "┃", "┃"⟩
  separator := ⟨"┡", "━", "╇", "┩"⟩
  row := ⟨"│", " ", "│", "│"⟩
  bottom := ⟨"└", "─", "┴", "┘"⟩

def Frame.square : Frame where
  top := ⟨"┌", "─", "┬", "┐"⟩
  header := ⟨"│", " ", "│", "│"⟩
  separator := ⟨"├", "─", "┼", "┤"⟩
  row := ⟨"│", " ", "│", "│"⟩
  bottom := ⟨"└", "─", "┴", "┘"⟩

def Frame.ascii : Frame where
  top := ⟨"+", "-", "-", "+"⟩
  header := ⟨"|", " ", "|", "|"⟩
  separator := ⟨"|", "-", "+", "|"⟩
  row := ⟨"|", " ", "|", "|"⟩
  bottom := ⟨"+", "-", "-", "+"⟩

structure Column where
  title : String
  side : Side := .left
  deriving DecidableEq

structure Grid where
  title : String
  columns : List Column
  rows : List (List String)
  deriving DecidableEq

def blanks (n : Nat) : String := String.ofList (List.replicate n ' ')

/-- Columns between the ends of the widest line of a cell, before its tabs are expanded. -/
def cellWidth (cell : String) : Nat :=
  ((Text.lines (shown cell)).map Text.width).foldl max 0

/-! ## Narrowing -/

def total (widths : List Nat) : Nat := widths.foldl (· + ·) 0

/-- `n / k` to the nearest number, a half to the even one. -/
def nearest (n k : Nat) : Nat :=
  if 2 * (n % k) < k ∨ (2 * (n % k) = k ∧ n / k % 2 = 0) then n / k else n / k + 1

/-- Takes `excess` from `count` columns of width `widest` in even shares, from none more than `most`. -/
def share (widest most : Nat) : Nat → Nat → List Nat → List Nat
  | _, _, [] => []
  | excess, count, w :: ws =>
    if w = widest then
      let part := min most (nearest excess count)
      (w - part) :: share widest most (excess - part) (count - 1) ws
    else w :: share widest most excess count ws

/-- The widest columns are narrowed to the next widest ones until all fit. -/
def narrowFrom (limit : Nat) : Nat → List Nat → List Nat
  | 0, ws => ws
  | fuel + 1, ws =>
    let excess := total ws - limit
    let widest := ws.foldl max 0
    let second := (ws.filter (· ≠ widest)).foldl max 0
    if excess = 0 then ws
    else
      narrowFrom limit fuel
        (share widest (min excess (widest - second)) excess (ws.count widest) ws)

namespace Grid

/-- Columns of rules and margins: one of each beside a column, and a rule at the end. -/
def extra (g : Grid) : Nat := 3 * g.columns.length + 1

/-- The widths of the columns on a console of `room` columns; margins are narrowed with them. -/
def widths (g : Grid) (room : Nat) : List Nat :=
  let wanted := g.columns.zipIdx.map fun (c, i) =>
    (g.rows.map fun r => cellWidth (r.getD i "")).foldl max (cellWidth c.title) + 2
  (narrowFrom (room - (g.columns.length + 1)) (total wanted) wanted).map (· - 2)

def line (r : Rule) (cells : List String) : String :=
  r.left ++ r.divider.intercalate cells ++ r.right ++ "\n"

def rule (r : Rule) (widths : List Nat) : String :=
  line r (widths.map fun w => String.join (List.replicate (w + 2) r.filling))

/-- A row has as many lines as its highest cell. -/
def row (g : Grid) (r : Rule) (widths : List Nat) (cells : List String) : String :=
  let contents := (g.columns.zip (widths.zip cells)).map fun (c, w, cell) =>
    (w, wrap w c.side .ellipsis (shown cell))
  let height := (contents.map (·.2.length)).foldl max 1
  String.join <| (List.range height).map fun k =>
    line r <| contents.map fun (w, ls) => " " ++ (ls[k]?.elim (blanks w) String.ofList) ++ " "

def heading (g : Grid) (widths : List Nat) : String :=
  let rest := total widths + g.extra - Text.width g.title.toList
  blanks (rest / 2) ++ g.title ++ blanks (rest - rest / 2) ++ "\n"

def text (g : Grid) (f : Frame) (room : Nat) : String :=
  let ws := g.widths room
  g.heading ws ++ rule f.top ws ++ g.row f.header ws (g.columns.map Column.title) ++ rule f.separator ws ++
    String.join (g.rows.map (g.row f.row ws)) ++ rule f.bottom ws

end Grid
end DeadCode.Console
