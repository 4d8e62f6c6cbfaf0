/-!
Sets of characters given by inclusive ranges of code points.
-/

namespace DeadCode.Text

def within (ranges : List (Nat × Nat)) (c : Char) : Bool :=
  ranges.any fun r => r.1 ≤ c.toNat && c.toNat ≤ r.2

end DeadCode.Text
