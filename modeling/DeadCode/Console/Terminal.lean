import DeadCode.Text.LowerCase

/-!
What a terminal can show. An encoding other than UTF-8 gets ASCII in place of the icons printed here.
-/

namespace DeadCode.Console

/-- The encoding in lower case; an unknown one is that of the locale, UTF-8. -/
def detectEncoding (given : Option String) : String :=
  match given with
  | none | some "" => "utf-8"
  | some e => Text.lower e

def isUtf8 (given : Option String) : Bool :=
  let name := (detectEncoding given).toList.map fun c => if c = '_' then '-' else c
  ["utf-8", "utf8"].contains (String.ofList name)

def replacement (c : Char) : List Char :=
  match c with
  | '✓' => "[OK]".toList
  | '✗' => "[FAIL]".toList
  | '⚠' => "[WARN]".toList
  | '→' => "->".toList
  | '…' => "...".toList
  | '•' => ['*']
  | '🧹' => "[clean]".toList
  | _ => [c]

def sanitize (s : String) (utf8 : Bool) : String :=
  if utf8 then s else String.ofList (s.toList.flatMap replacement)

end DeadCode.Console
