/-!
Binary floating-point numbers of 53 bits. A finite number is `mantissa * 2 ^ exponent`; the exponent is
at least -1074, and the mantissa is below `2 ^ 53` and, above that least exponent, at least `2 ^ 52`.
Rounding goes to the nearest number, and a tie to the even mantissa.
-/

namespace DeadCode

inductive Double where
  | nan
  | infinite (negative : Bool)
  | finite (negative : Bool) (mantissa : Nat) (exponent : Int)
  deriving DecidableEq, Inhabited

namespace Double

/-- `num / den` rounded to a natural number. -/
def roundDiv (num den : Nat) : Nat :=
  let q := num / den
  let r := 2 * (num % den)
  if den < r ∨ (r = den ∧ q % 2 = 1) then q + 1 else q

/-- `num / den` in units of `2 ^ e`, as a fraction. -/
def inUnits (num den : Nat) (e : Int) : Nat × Nat := (num * Nat.pow 2 (-e).toNat, den * Nat.pow 2 e.toNat)

/-- The least mantissa above the least exponent, `2 ^ 52`. -/
def leastFull : Nat := Nat.pow 2 52

/-- The exponent of the number next to a positive `num / den`. -/
def exponentOf (num den : Nat) : Int :=
  let e := max (-1074) ((num.log2 : Int) - den.log2 - 52)
  let (n, d) := inUnits num den e
  if n / d < leastFull ∧ -1074 < e then e - 1 else e

/-- The number nearest to `num / den`. -/
def ofRatio (negative : Bool) (num den : Nat) : Double :=
  if num = 0 then .finite negative 0 (-1074)
  else
    let e := exponentOf num den
    let (n, d) := inUnits num den e
    let m := roundDiv n d
    let (m, e) := if m = 2 * leastFull then (leastFull, e + 1) else (m, e)
    if 971 < e then .infinite negative else .finite negative m e

/-- The number nearest to `digits * 10 ^ exponent`. Beyond four hundred places it is certain to be
infinite or zero. -/
def ofDecimal (negative : Bool) (digits : Nat) (exponent : Int) : Double :=
  let places : Int := (Nat.toDigits 10 digits).length + exponent
  if digits = 0 ∨ places < -400 then .finite negative 0 (-1074)
  else if 400 < places then .infinite negative
  else ofRatio negative (digits * Nat.pow 10 exponent.toNat) (Nat.pow 10 (-exponent).toNat)

/-- Whether a number compares as zero or less. NaN does not. -/
def isNonpositive : Double → Bool
  | .nan => false
  | .infinite negative => negative
  | .finite negative mantissa _ => negative || mantissa == 0

/-- Whether a number compares as greater than zero. NaN does not. -/
def isPositive : Double → Bool
  | .nan => false
  | .infinite negative => !negative
  | .finite negative mantissa _ => !negative && mantissa != 0

end Double
end DeadCode
