/-!
Marked-up console text: a tag such as `[bold]` sets a style and leaves no text. `escape` writes a text so
that it is shown as it is, and `shown` is what a marked-up text shows.
-/

namespace DeadCode.Console

def startsTag (c : Char) : Bool := c.isLower || c = '#' || c = '/' || c = '@'

/-- The tag at the front of a text, brackets and all, and what follows it. -/
def tag? : List Char → Option (List Char × List Char)
  | '[' :: c :: rest =>
    let body := rest.takeWhile fun c => c ≠ '[' && c ≠ ']'
    match startsTag c, rest.dropWhile fun c => c ≠ '[' && c ≠ ']' with
    | true, ']' :: after => some ('[' :: c :: body ++ [']'], after)
    | _, _ => none
  | _ => none

/-- Pieces of a marked-up text: plain stretches, and tags with the number of backslashes before them. -/
inductive Piece where
  | plain (text : List Char)
  | tag (backslashes : Nat) (text : List Char)

/-- Each round passes at least one character. -/
def piecesFrom : Nat → List Char → List Char → List Piece
  | 0, seen, _ => [.plain seen.reverse]
  | _, seen, [] => [.plain seen.reverse]
  | fuel + 1, seen, c :: rest =>
    let slashes := ((c :: rest).takeWhile (· = '\\')).length
    let behind := (c :: rest).drop slashes
    match tag? behind with
    | some (text, after) => .plain seen.reverse :: .tag slashes text :: piecesFrom fuel [] after
    | none =>
      if slashes = 0 then piecesFrom fuel (c :: seen) rest
      else piecesFrom fuel (List.replicate slashes '\\' ++ seen) behind

def pieces (cs : List Char) : List Piece := piecesFrom (cs.length + 1) [] cs

/-- Puts a backslash before every tag and doubles those that stand there; a single backslash at the end is
doubled too. -/
def escape (s : String) : String :=
  let cs := (pieces s.toList).flatMap fun
    | .plain text => text
    | .tag n text => List.replicate (2 * n + 1) '\\' ++ text
  let closing := match cs.reverse with
    | '\\' :: '\\' :: _ => []
    | '\\' :: _ => ['\\']
    | _ => []
  String.ofList (cs ++ closing)

/-- A backslash before a bracket is not shown. -/
def dropBracketEscapes : List Char → List Char
  | '\\' :: '[' :: rest => '[' :: dropBracketEscapes rest
  | c :: rest => c :: dropBracketEscapes rest
  | [] => []

/-- The stretches of text that are shown. Of the backslashes before a tag half are shown, and an odd one
makes the tag text. -/
def shownStretches (s : String) : List (List Char) :=
  ((pieces s.toList).flatMap fun
    | .plain text => [text]
    | .tag n text => List.replicate (n / 2) '\\' :: if n % 2 = 1 then [text] else []).map
      dropBracketEscapes

end DeadCode.Console
