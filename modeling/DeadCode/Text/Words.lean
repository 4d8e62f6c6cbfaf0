/-!
Splitting a command line into words. Blanks separate words; a pair of apostrophes keeps everything between
them; a pair of double quotes does too, except that a backslash there takes the meaning from a double quote
or a backslash; elsewhere a backslash takes the meaning from any character.
-/

namespace DeadCode.Text

inductive WordsError where
  | unclosedQuote | danglingEscape
  deriving DecidableEq

def WordsError.message : WordsError → String
  | .unclosedQuote => "No closing quotation"
  | .danglingEscape => "No escaped character"

namespace Words

inductive State where
  | plain | apostrophe | quote | escaped | escapedInQuote
  deriving DecidableEq

def isSeparator (c : Char) : Bool := c = ' ' || c = '\t' || c = '\r' || c = '\n'

def pushWord (word : Option (List Char)) (words : List String) : List String :=
  match word with
  | none => words
  | some w => words ++ [String.ofList w]

/-- `word` is the word begun, if any. -/
def splitFrom (state : State) (word : Option (List Char)) (words : List String) :
    List Char → Except WordsError (List String)
  | [] =>
    match state with
    | .plain => .ok (pushWord word words)
    | .apostrophe | .quote => .error .unclosedQuote
    | .escaped | .escapedInQuote => .error .danglingEscape
  | c :: rest =>
    let begun := word.getD []
    match state with
    | .plain =>
      if isSeparator c then splitFrom .plain none (pushWord word words) rest
      else if c = '\\' then splitFrom .escaped (some begun) words rest
      else if c = '\x27' then splitFrom .apostrophe (some begun) words rest
      else if c = '"' then splitFrom .quote (some begun) words rest
      else splitFrom .plain (some (begun ++ [c])) words rest
    | .apostrophe =>
      if c = '\x27' then splitFrom .plain word words rest
      else splitFrom .apostrophe (some (begun ++ [c])) words rest
    | .quote =>
      if c = '"' then splitFrom .plain word words rest
      else if c = '\\' then splitFrom .escapedInQuote word words rest
      else splitFrom .quote (some (begun ++ [c])) words rest
    | .escaped => splitFrom .plain (some (begun ++ [c])) words rest
    | .escapedInQuote =>
      let kept := if c = '"' ∨ c = '\\' then [c] else ['\\', c]
      splitFrom .quote (some (begun ++ kept)) words rest

end Words

def words (s : String) : Except WordsError (List String) := Words.splitFrom .plain none [] s.toList

end DeadCode.Text
