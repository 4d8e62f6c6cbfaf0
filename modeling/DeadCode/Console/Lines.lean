import DeadCode.Console.IconNames
import DeadCode.Console.Markup
import DeadCode.Console.Wrap
import DeadCode.Text.LowerCase

/-!
From marked-up text to the lines on the console: tags vanish, a name between colons becomes its icon, and some
control characters are dropped.
-/

namespace DeadCode.Console

def hexValue (cs : List Char) : Nat :=
  cs.foldl (fun n c => 16 * n + if c.isDigit then c.toNat - 48 else c.toNat - 87) 0

/-- The icon of a name. -/
def icon? (name : String) : Option (List Char) :=
  ((iconNames.splitOn "\n").flatMap (·.splitOn " ")).findSome? fun entry =>
    match entry.splitOn "=" with
    | [key, codes] =>
      if key = name then some ((codes.splitOn "-").map fun h => Char.ofNat (hexValue h.toList)) else none
    | _ => none

/-- A name that ends in `-text` or `-emoji` asks for that form of its icon. -/
def iconFor? (name : List Char) : Option (List Char) :=
  let reversed := name.reverse
  let (stem, variant) :=
    if "-text".toList.reverse.isPrefixOf reversed then (reversed.drop 5, [Char.ofNat 0xFE0E])
    else if "-emoji".toList.reverse.isPrefixOf reversed then (reversed.drop 6, [Char.ofNat 0xFE0F])
    else (reversed, [])
  (icon? (Text.lower (String.ofList stem.reverse))).map (· ++ variant)

/-- Each round passes at least one character. -/
def replaceNamesFrom : Nat → List Char → List Char
  | 0, cs => cs
  | _, [] => []
  | fuel + 1, c :: rest =>
    if c = ':' then
      let name := rest.takeWhile fun c => c ≠ ':' && !Text.isBlank c
      match rest.drop name.length with
      | ':' :: after =>
        (iconFor? name).getD (':' :: name ++ [':']) ++ replaceNamesFrom fuel after
      | _ => c :: replaceNamesFrom fuel rest
    else c :: replaceNamesFrom fuel rest

def replaceNames (cs : List Char) : List Char := replaceNamesFrom cs.length cs

/-- Bell, backspace, vertical tab, form feed and carriage return. -/
def isDropped (c : Char) : Bool := [7, 8, 11, 12, 13].contains c.toNat

/-- What a marked-up text shows, before it is cut into lines. -/
def shown (s : String) : List Char :=
  ((shownStretches s).flatMap replaceNames).filter (!isDropped ·)

/-- The console's text for what is shown, with the line feed that ends it. -/
def printed (columns : Nat) (cs : List Char) : String :=
  String.ofList (Text.joinNewlines (wrap columns .free .fold cs) ++ ['\n'])

end DeadCode.Console
