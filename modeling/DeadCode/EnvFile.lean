import DeadCode.Table
import DeadCode.Text.Lines

/-!
Environment files: lines `KEY=VALUE`, optionally after `export`, with values bare or in quotes, and comments
from `#`. A key without a value sets nothing; of two lines for one key the last counts; a line that does not
fit is skipped. In a value `${NAME}` stands for the value of another key, `${NAME:-TEXT}` for
TEXT if there is none.
-/

namespace DeadCode

abbrev Environment := Table String String

namespace EnvFile

/-- Blanks within a line. -/
def isInline (c : Char) : Bool := Text.isBlank c && c != '\n'

def skipInline (cs : List Char) : List Char := cs.dropWhile isInline

def skipLine (cs : List Char) : List Char := (cs.dropWhile (· ≠ '\n')).drop 1

/-- Drops the word `export` and the blanks after it. -/
def skipExport (cs : List Char) : List Char :=
  match cs with
  | 'e' :: 'x' :: 'p' :: 'o' :: 'r' :: 't' :: c :: rest => if isInline c then skipInline rest else cs
  | _ => cs

/-- The text up to the closing quote and what follows it. Backslashes are taken in pairs; a quote behind a
single one closes only if none stands free later. -/
def scanQuoted (quote : Char) : List Char → Option (List Char × List Char)
  | [] => none
  | '\\' :: rest@(q :: more) =>
    if q = quote then
      match scanQuoted quote more with
      | some (text, after) => some ('\\' :: q :: text, after)
      | none => some (['\\'], more)
    else if q = '\\' then (scanQuoted quote more).map fun (text, after) => ('\\' :: q :: text, after)
    else (scanQuoted quote rest).map fun (text, after) => ('\\' :: text, after)
  | c :: rest =>
    if c = quote then some ([], rest)
    else (scanQuoted quote rest).map fun (text, after) => (c :: text, after)

/-- The character that a backslash makes of the next one. -/
def escape? (quote c : Char) : Option Char :=
  if c = '\\' ∨ c = '\x27' then some c
  else if quote = '"' then
    match c with
    | '"' => some '"'
    | 'a' => some '\x07'
    | 'b' => some '\x08'
    | 'f' => some '\x0c'
    | 'n' => some '\n'
    | 'r' => some '\r'
    | 't' => some '\t'
    | 'v' => some '\x0b'
    | _ => none
  else none

def unescape (quote : Char) : List Char → List Char
  | [] => []
  | '\\' :: rest@(e :: more) =>
    match escape? quote e with
    | some d => d :: unescape quote more
    | none => '\\' :: unescape quote rest
  | c :: rest => c :: unescape quote rest

/-- A bare value ends where blanks and `#` begin a comment. -/
def cutComment : List Char → List Char
  | [] => []
  | c :: rest =>
    if Text.isBlank c && ((c :: rest).dropWhile Text.isBlank).head? = some '#' then []
    else c :: cutComment rest

/-- The value behind an equals sign and what follows it; none for a quote that is not closed. -/
def value? (cs : List Char) : Option (String × List Char) :=
  match skipInline cs with
  | [] => some ("", [])
  | c :: rest =>
    if c = '\x27' ∨ c = '"' then
      (scanQuoted c rest).map fun (text, after) => (String.ofList (unescape c text), after)
    else
      let line := cs.takeWhile (· ≠ '\n')
      some (String.ofList (Text.stripChars (cutComment line)), cs.dropWhile (· ≠ '\n'))

/-- The key at the front of a line, none for a comment; what follows it. -/
def key? (cs : List Char) : Except (List Char) (Option String × List Char) :=
  match cs with
  | '#' :: _ => .ok (none, cs)
  | '\x27' :: rest =>
    let name := rest.takeWhile (· ≠ '\x27')
    match rest.dropWhile (· ≠ '\x27') with
    | _ :: after => if name.isEmpty then .error cs else .ok (some (String.ofList name), after)
    | [] => .error cs
  | _ =>
    let fits (c : Char) : Bool := c ≠ '=' && c ≠ '#' && !Text.isBlank c
    let name := cs.takeWhile fits
    if name.isEmpty then .error cs else .ok (some (String.ofList name), cs.dropWhile fits)

/-- The end of a line after an optional comment; otherwise where the line stops fitting. -/
def lineEnd (cs : List Char) : Except (List Char) (List Char) :=
  let inner := skipInline cs
  let cs := match inner with
    | '#' :: _ => inner.dropWhile (· ≠ '\n')
    | _ => cs
  match skipInline cs with
  | [] => .ok []
  | '\n' :: rest => .ok rest
  | _ => .error cs

/-- One line: its key and value, and the lines after it. An error holds the place where it was found. -/
def line (cs : List Char) : Except (List Char) (Option (String × Option String) × List Char) := do
  let (key, rest) ← key? (skipExport cs)
  let rest := skipInline rest
  let (value, rest) ←
    match rest with
    | '=' :: more =>
      match value? more with
      | some (value, rest) => .ok (some value, rest)
      | none => .error (skipInline more)
    | _ => .ok (none, rest)
  let rest ← lineEnd rest
  return (key.map fun k => (k, value), rest)

/-- Each round passes at least one character, so there are no more rounds than characters. -/
def linesFrom : Nat → List Char → List (String × Option String)
  | 0, _ => []
  | fuel + 1, cs =>
    match cs.dropWhile Text.isBlank with
    | [] => []
    | cs =>
      match line cs with
      | .ok (some entry, rest) => entry :: linesFrom fuel rest
      | .ok (none, rest) => linesFrom fuel rest
      | .error place => linesFrom fuel (skipLine place)

/-- A byte order mark at the front is no text. -/
def skipMark : List Char → List Char
  | c :: rest => if c.toNat = 0xFEFF then rest else c :: rest
  | [] => []

def lines (text : String) : List (String × Option String) :=
  let cs := Text.unifyNewlines (skipMark text.toList)
  linesFrom (cs.length + 1) cs

/-! ## References to other keys -/

/-- A key that a value refers to, with the text to take if there is no such key. -/
structure Reference where
  key : String
  fallback : String
  deriving DecidableEq

/-- The reference behind a dollar sign and an opening brace, and what follows its closing brace. -/
def reference? (cs : List Char) : Option (Reference × List Char) :=
  let inKey (c : Char) : Bool := c ≠ '\x7d' && c ≠ ':'
  let key := String.ofList (cs.takeWhile inKey)
  match cs.dropWhile inKey with
  | ':' :: '-' :: more =>
    match more.dropWhile (· ≠ '\x7d') with
    | _ :: after => some (⟨key, String.ofList (more.takeWhile (· ≠ '\x7d'))⟩, after)
    | [] => none
  | '\x7d' :: after => some (⟨key, ""⟩, after)
  | _ => none

/-- Each round passes at least one character. -/
def resolveFrom (meaning : Reference → String) : Nat → List Char → List Char
  | 0, cs => cs
  | _, [] => []
  | fuel + 1, c :: rest =>
    match c, rest with
    | '$', '\x7b' :: inner =>
      match reference? inner with
      | some (r, after) => (meaning r).toList ++ resolveFrom meaning fuel after
      | none => c :: resolveFrom meaning fuel rest
    | _, _ => c :: resolveFrom meaning fuel rest

def resolve (meaning : Reference → String) (value : String) : String :=
  String.ofList (resolveFrom meaning value.length value.toList)

/-- The environment goes before the file; a key of the file without a value means the empty text. -/
def meaning (env : Environment) (known : Table String (Option String)) (r : Reference) : String :=
  match env.get? r.key, known.get? r.key with
  | some value, _ => value
  | none, some value => value.getD ""
  | none, none => r.fallback

/-- The keys of a file, in order of first mention, with their last values. -/
def entries (text : String) (env : Environment) : Table String (Option String) :=
  (lines text).foldl (fun known (key, value) =>
    known.insert key (value.map (resolve (meaning env known)))) {}

/-! ## Loading -/

/-- Why an environment does not take a variable. -/
inductive Fault where
  | illegalName | nullCharacter
  deriving DecidableEq

def Fault.message : Fault → String
  | .illegalName => "illegal environment variable name"
  | .nullCharacter => "embedded null byte"

def fault? (key value : String) : Option Fault :=
  if (key ++ value).toList.contains '\x00' then some .nullCharacter
  else if key.toList.contains '=' then some .illegalName
  else none

/-- Sets the variables that are not set already, up to the first fault. -/
def store (env : Environment) : List (String × Option String) → Environment × Option Fault
  | [] => (env, none)
  | (_, none) :: rest => store env rest
  | (key, some value) :: rest =>
    if env.contains key then store env rest
    else
      match fault? key value with
      | some fault => (env, some fault)
      | none => store (env.insert key value) rest

/-- The keys of a file with their values, read in an environment; a key may come without one. -/
abbrev Reader := String → Environment → Table String (Option String)

def load (read : Reader) (text : String) (env : Environment) : Environment × Option Fault :=
  store env (read text env).entries

end EnvFile
end DeadCode
