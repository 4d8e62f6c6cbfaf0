import DeadCode.Console.Grid
import DeadCode.Console.Terminal
import DeadCode.Report

/-!
The console. The commands print marked-up lines and tables one after another; a `Display` makes texts of them or cannot.
`Terminal.display` is what a terminal of a given encoding and width shows.
-/

namespace DeadCode

namespace Console

/-- What is printed at once. -/
inductive Item where
  | line (markup : String)
  | grid (g : Grid)
  deriving DecidableEq

/-- The line that says what went wrong. -/
def Item.error (message : String) : Item := .line ("[bold red]Error:[/bold red] " ++ message)

end Console

/-- Where things are printed: its encoding, none if that is unknown, the mark-up that shows a text as it is, and what comes
of an item, unless it has a character that the encoding lacks. -/
structure Display where
  encoding : Option String := some "utf-8"
  escape : String → String
  print : Console.Item → Option String

namespace Display

/-- Prints one item. Only lines get ASCII in place of icons. -/
def put (d : Display) : Console.Item → Option String
  | .line markup => d.print (.line (Console.sanitize markup (Console.isUtf8 d.encoding)))
  | .grid g => d.print (.grid g)

/-- Prints items up to the first that cannot be printed: the text, and whether that was all of them. -/
def printAll (d : Display) : List Console.Item → String × Bool
  | [] => ("", true)
  | item :: rest =>
    match d.put item with
    | none => ("", false)
    | some text =>
      let (more, all) := d.printAll rest
      (text ++ more, all)

end Display

/-- A terminal by its encoding, the characters that it has, and its width. -/
structure Terminal where
  encoding : Option String := some "utf-8"
  has : Char → Bool := fun _ => true
  columns : Nat := 1000
  deriving Inhabited

namespace Terminal

/-- Encodings beyond the UTF family are drawn in ASCII, and UTF-8 alone gets the heavy frame. -/
def frame (t : Terminal) : Console.Frame :=
  if !"utf".toList.isPrefixOf (Console.detectEncoding t.encoding).toList then .ascii
  else if Console.isUtf8 t.encoding then .heavyHead
  else .square

def draw (t : Terminal) : Console.Item → String
  | .line markup => Console.printed t.columns (Console.shown markup)
  | .grid g => g.text t.frame t.columns

def display (t : Terminal) : Display where
  encoding := t.encoding
  escape := Console.escape
  print item :=
    let text := t.draw item
    if text.toList.all t.has then some text else none

end Terminal

namespace Report

def countLabel : Removed → String
  | .declaration => "Declarations"
  | .declarator => "Declarators"
  | .function => "Functions"
  | .importName => "Import specifiers"
  | .assignment => "Dangling assignments"
  | .other label => label

def summary (r : Report) : Console.Grid where
  title := "Removed"
  columns := [{ title := "Kind" }, { title := "Count", side := .right }]
  rows := (Removed.counted.map fun what => [countLabel what, toString (r.count what)]) ++
    [["[bold]Total[/bold]", s!"[bold]{r.total}[/bold]"]]

/-- Every removal, by line; those of one line stay in their order. -/
def details (r : Report) (escape : String → String) : Console.Grid where
  title := "Details"
  columns := [{ title := "Line", side := .right }, { title := "Kind" }, { title := "Name" }]
  rows := (r.removals.mergeSort fun a b => a.line ≤ b.line).map fun m =>
    [toString m.line, m.what.label, escape m.name]

def items (r : Report) (escape : String → String) (verbose : Bool) : List Console.Item :=
  .grid r.summary :: if verbose && !r.removals.isEmpty then [.grid (r.details escape)] else []

end Report
end DeadCode
