import DeadCode.Decimal.Double

/-!
The shortest decimal text of a number: the fewest digits that read back as the same number, and of those
the nearest. For one to seventeen digits the two neighbours on that decimal grid are tried in exact
arithmetic.
-/

namespace DeadCode.Double

/-- The interval of reals that round to `mantissa * 2 ^ exponent`, all three in units of
`2 ^ (exponent - 2)`: lower end, value, upper end. The ends belong to it if the mantissa is even. -/
def interval (mantissa : Nat) (exponent : Int) : Nat × Nat × Nat :=
  let low := if mantissa = leastFull ∧ -1074 < exponent then 4 * mantissa - 1 else 4 * mantissa - 2
  (low, 4 * mantissa, 4 * mantissa + 2)

/-- Factors `(p, q)` such that a count `x` of `2 ^ two` is `x * p / q` counts of `10 ^ ten`. -/
def factors (two ten : Int) : Nat × Nat :=
  (Nat.pow 2 two.toNat * Nat.pow 10 (-ten).toNat, Nat.pow 2 (-two).toNat * Nat.pow 10 ten.toNat)

/-- The point of the grid of `10 ^ ten` that reads back and is nearest to the number. -/
def gridPoint? (mantissa : Nat) (exponent ten : Int) : Option Nat :=
  let (low, value, high) := interval mantissa exponent
  let (p, q) := factors (exponent - 2) ten
  let inside (c : Nat) : Bool :=
    if mantissa % 2 = 0 then low * p ≤ c * q && c * q ≤ high * p
    else low * p < c * q && c * q < high * p
  let below := value * p / q
  let above := below + 1
  let gapBelow := value * p - below * q
  let gapAbove := above * q - value * p
  match inside below, inside above with
  | true, true =>
    if gapBelow < gapAbove ∨ (gapBelow = gapAbove ∧ below % 2 = 0) then some below else some above
  | true, false => some below
  | false, true => some above
  | false, false => none

/-- The least `k` with the number below `10 ^ k`. -/
def magnitude (mantissa : Nat) (exponent : Int) : Int :=
  let estimate := ((mantissa.log2 : Int) + exponent) * 30103 / 100000
  let reaches (k : Int) : Bool :=
    let (p, q) := factors exponent k
    q ≤ mantissa * p
  if reaches (estimate + 1) then estimate + 2
  else if reaches estimate then estimate + 1
  else estimate

/-- Digits and the power of ten they count, for a positive number. -/
def shortestFrom (mantissa : Nat) (exponent magnitude : Int) : Nat → Nat → Nat × Int
  | 0, _ => (0, 0)
  | fuel + 1, n =>
    match gridPoint? mantissa exponent (magnitude - n) with
    | some c => (c, magnitude - n)
    | none => shortestFrom mantissa exponent magnitude fuel (n + 1)

def shortest (mantissa : Nat) (exponent : Int) : Nat × Int :=
  shortestFrom mantissa exponent (magnitude mantissa exponent) 17 1

/-- Positional with at least one decimal for a decimal exponent from -4 to 15, otherwise with an exponent of
at least two digits. -/
def writeDigits (digits : List Char) (point : Int) : String :=
  let digits := (digits.reverse.dropWhile (· == '0')).reverse
  let zeros (n : Nat) : List Char := List.replicate n '0'
  let e := point - 1
  if -4 ≤ e ∧ e < 16 then
    if point ≤ 0 then String.ofList ('0' :: '.' :: zeros (-point).toNat ++ digits)
    else
      let whole := digits.take point.toNat ++ zeros (point.toNat - digits.length)
      let fraction := digits.drop point.toNat
      String.ofList (whole ++ '.' :: if fraction.isEmpty then ['0'] else fraction)
  else
    let power := Nat.toDigits 10 e.natAbs
    let power := zeros (2 - power.length) ++ power
    let fraction := digits.drop 1
    String.ofList (digits.take 1 ++ (if fraction.isEmpty then [] else '.' :: fraction) ++
      'e' :: (if e < 0 then '-' else '+') :: power)

def text : Double → String
  | .nan => "nan"
  | .infinite negative => if negative then "-inf" else "inf"
  | .finite negative mantissa exponent =>
    let sign := if negative then "-" else ""
    if mantissa = 0 then sign ++ "0.0"
    else
      let (c, ten) := shortest mantissa exponent
      let digits := Nat.toDigits 10 c
      sign ++ writeDigits digits (digits.length + ten)

end DeadCode.Double
