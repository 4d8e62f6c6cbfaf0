import DeadCode.Decimal.Double
import DeadCode.Text.Blank
import DeadCode.Text.Digits
import DeadCode.Text.Quoted

/-!
Reading numbers from free text. Digits of every script count, single underscores may stand between
digits, and blanks around the numeral are skipped.
-/

namespace DeadCode

inductive NumeralError where
  | notInteger (text : String)
  | tooManyDigits (count : Nat)
  | notNumber (text : String)
  deriving DecidableEq

namespace Numeral

/-- More digits than this are not read. -/
def digitLimit : Nat := 4300

def foldChar (c : Char) : Char :=
  if c.toNat < 127 then c
  else if Text.isBlank c then ' '
  else
    match Text.digit? c with
    | some d => Nat.digitChar d
    | none => '?'

/-- Blanks in the narrow sense: the separators U+001C to U+001F stay. -/
def isSpace (c : Char) : Bool := c = ' ' || (9 ≤ c.toNat && c.toNat ≤ 13)

/-- The numeral in ASCII, without the blanks around it. -/
def fold (s : String) : List Char :=
  (((s.toList.map foldChar).dropWhile isSpace).reverse.dropWhile isSpace).reverse

def takeSign : List Char → Bool × List Char
  | '-' :: rest => (true, rest)
  | '+' :: rest => (false, rest)
  | cs => (false, cs)

/-- Whether every underscore stands between two digits; `before` tells of a digit just before. -/
def underscoresFit (before : Bool) : List Char → Bool
  | [] => true
  | '_' :: c :: rest => before && c.isDigit && underscoresFit true rest
  | '_' :: [] => false
  | c :: rest => underscoresFit c.isDigit rest

def value (cs : List Char) : Nat := cs.foldl (fun n c => 10 * n + (c.toNat - '0'.toNat)) 0

def isDigits (cs : List Char) : Bool := !cs.isEmpty && cs.all Char.isDigit

/-- The number of digits is checked before what follows them. -/
def readInt (s : String) : Except NumeralError Int :=
  let (negative, body) := takeSign (fold s)
  let run := body.takeWhile fun c => c.isDigit || c = '_'
  let digits := run.filter (· ≠ '_')
  if !underscoresFit false run then .error (.notInteger s)
  else if digitLimit < digits.length then .error (.tooManyDigits digits.length)
  else if run ≠ body ∨ digits = [] then .error (.notInteger s)
  else .ok (if negative then -(value digits : Int) else value digits)

def readExponent : List Char → Option Int
  | [] => some 0
  | c :: rest =>
    if c = 'e' ∨ c = 'E' then
      let (negative, digits) := takeSign rest
      if isDigits digits then some (if negative then -(value digits : Int) else value digits) else none
    else none

def readFinite (negative : Bool) (cs : List Char) : Option Double := do
  let whole := cs.takeWhile Char.isDigit
  let rest := cs.dropWhile Char.isDigit
  let (fraction, rest) := match rest with
    | '.' :: more => (more.takeWhile Char.isDigit, more.dropWhile Char.isDigit)
    | _ => ([], rest)
  guard (whole ≠ [] ∨ fraction ≠ [])
  let exponent ← readExponent rest
  return .ofDecimal negative (value (whole ++ fraction)) (exponent - fraction.length)

def readDouble (s : String) : Except NumeralError Double :=
  let cs := fold s
  let plain := cs.filter (· ≠ '_')
  let (negative, body) := takeSign plain
  let result : Option Double :=
    if !underscoresFit false cs then none
    else
      match String.ofList (body.map Char.toLower) with
      | "inf" | "infinity" => if plain = cs then some (.infinite negative) else none
      | "nan" => if plain = cs then some .nan else none
      | _ => readFinite negative body
  match result with
  | some d => .ok d
  | none => .error (.notNumber s)

end Numeral

/-- The quoted text in the message about an integer is cut at two hundred characters. -/
def NumeralError.message : NumeralError → String
  | .notInteger text =>
    "invalid literal for int() with base 10: " ++ String.ofList ((Text.quoted text).toList.take 200)
  | .tooManyDigits count =>
    s!"Exceeds the limit ({Numeral.digitLimit} digits) for integer string conversion: value has {count} " ++
      "digits; use sys.set_int_max_str_digits() to increase the limit"
  | .notNumber text => "could not convert string to float: " ++ Text.quoted text

end DeadCode
