/-
  Reshape.Number.Shortest: the fewest decimal digits that read back.

  Around a magnitude lies the interval of fractions that round to it, halfway to its neighbours;
  the ends belong to it when the rank is even. For one digit, two digits and so on, the magnitude
  is compared with the two decimals of that many digits next to it, one on each side. The first
  count of digits with a decimal in the interval is the answer; of two, the nearer one, and of two
  equally near the even one.
-/

import Reshape.Number.Double

namespace Reshape.Double

/-- A decimal `significand · 10 ^ exponent`. -/
structure Decimal where
  significand : Nat
  exponent : Int
  deriving DecidableEq, Repr

/-- The count `k` of digits before the point of `num / den`, so that `num / den` lies from
`10 ^ (k - 1)` up to, and without, `10 ^ k`. -/
def digitsBeforePoint (num den : Nat) : Int :=
  if den ≤ num then (Nat.toDigits 10 (num / den)).length
  else
    let c := (Nat.toDigits 10 (den / num)).length
    if den ≤ num * Nat.pow 10 (c - 1) then 2 - (c : Int) else 1 - (c : Int)

/-- The fraction `a / b` scaled by `10 ^ e`. -/
def scaled (a b : Nat) (e : Int) : Nat × Nat := (a * Nat.pow 10 e.toNat, b * Nat.pow 10 (-e).toNat)

/-- Whether `c · 10 ^ e` rounds to the magnitude of this rank. -/
def roundsTo (rank c : Nat) (e : Int) : Bool :=
  let low := units (rank - 1) + units rank
  let high := units rank + units (rank + 1)
  let (num, den) := scaled c 1 e
  let x := num * (2 * unitsPerOne)
  if rank % 2 = 0 then low * den ≤ x && x ≤ high * den else low * den < x && x < high * den

/-- The decimal with exponent `e` that is nearest to the magnitude of this rank, if one on either
side rounds to it. -/
def decimalAt? (rank : Nat) (e : Int) : Option Decimal :=
  let (num, den) := scaled (units rank) unitsPerOne (-e)
  let below := num / den
  match roundsTo rank below e, roundsTo rank (below + 1) e with
  | true, true => some ⟨nearer below (compare (2 * (num - below * den)) den), e⟩
  | true, false => some ⟨below, e⟩
  | false, true => some ⟨below + 1, e⟩
  | false, false => none

/-- The shortest decimal of a positive magnitude. Seventeen digits always suffice. -/
def shortest (rank : Nat) : Decimal :=
  let k := digitsBeforePoint (units rank) unitsPerOne
  ((List.range 17).findSome? fun (n : Nat) => decimalAt? rank (k - (n + 1))).getD ⟨0, 0⟩

end Reshape.Double
