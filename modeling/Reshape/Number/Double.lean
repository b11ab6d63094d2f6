/-
  Reshape.Number.Double: binary64 numbers, by exact arithmetic.

  The finite magnitudes, in increasing order from zero, are numbered by their `rank`: 2047 binades
  of 2^52 magnitudes each. All of them are whole multiples of the smallest positive one, 2^-1074;
  `units` is that multiple, so that every finite number is an exact fraction and no operation
  below rounds more than once.
  - `Double.ofRatio` rounds a fraction to the nearest number, a tie to the one of even rank.
  - `units_of_lt`: the ranks of the first two exponents are their own multiples.
-/

namespace Reshape

/-- The count of magnitudes of one exponent. -/
def binade : Nat := Nat.pow 2 52

/-- The finite magnitudes have the ranks below this one. -/
def rankLimit : Nat := 2047 * binade

inductive Double where
  | nan
  | infinite (negative : Bool)
  | finite (negative : Bool) (rank : Fin rankLimit)
  deriving DecidableEq, Repr

namespace Double

/-- `2 ^ 1074`: a magnitude is its `units` over this. -/
def unitsPerOne : Nat := Nat.pow 2 1074

def units (rank : Nat) : Nat :=
  if rank < binade then rank
  else (binade + rank % binade) * Nat.pow 2 (rank / binade - 1)

/-- The greatest rank whose units are at most `q`. -/
def rankBelow (q : Nat) : Nat := (q.log2 - 52) * binade + q / Nat.pow 2 (q.log2 - 52)

/-- The nearer of a whole number and the next one to something between them, by its order to their
middle; a tie goes to the even one. -/
def nearer (below : Nat) (toMiddle : Ordering) : Nat :=
  match toMiddle with
  | .lt => below
  | .gt => below + 1
  | .eq => if below % 2 = 0 then below else below + 1

/-- The rank nearest to `num / den` units, a tie going to the even one. -/
def nearestRank (num den : Nat) : Nat :=
  let below := rankBelow (num / den)
  nearer below (compare (2 * num) ((units below + units (below + 1)) * den))

def ofRank (negative : Bool) (rank : Nat) : Double :=
  if h : rank < rankLimit then .finite negative ⟨rank, h⟩ else .infinite negative

/-- The number nearest to `num / den`; past the finite ones lies infinity. -/
def ofRatio (negative : Bool) (num den : Nat) : Double :=
  ofRank negative (nearestRank (num * unitsPerOne) den)

def ofInt (n : Int) : Double := ofRatio (n < 0) n.natAbs 1

def zero (negative : Bool) : Double := ofRank negative 0

/-- The number nearest to `m · 10 ^ e`. Exponents so large or so small that the answer is infinity
or zero whatever the digits are not computed with. -/
def ofDecimal (negative : Bool) (m : Nat) (e : Int) : Double :=
  let magnitude : Int := (Nat.toDigits 10 m).length + e
  if m = 0 ∨ magnitude < -330 then zero negative
  else if 310 < magnitude then .infinite negative
  else ofRatio negative (m * Nat.pow 10 e.toNat) (Nat.pow 10 (-e).toNat)

/-- The number as a signed count of units, if it is finite. -/
def units? : Double → Option Int
  | .finite negative rank => some (if negative then -(units rank : Int) else units rank)
  | _ => none

/-- The whole part of a finite number, cut toward zero. -/
def truncated? (x : Double) : Option Int := x.units?.map (Int.tdiv · unitsPerOne)

/-- The integer that a number is, if it is one. -/
def integer? (x : Double) : Option Int :=
  x.units?.bind fun u => if u % unitsPerOne = 0 then some (u / unitsPerOne) else none

def negate : Double → Double
  | .nan => .nan
  | .infinite negative => .infinite !negative
  | .finite negative rank => .finite (!negative) rank

/-- The rounded sum. Infinities of both signs have none; a sum of nought has no minus sign unless
both numbers have one. -/
def add (x y : Double) : Double :=
  match x, y with
  | .nan, _ | _, .nan => .nan
  | .infinite s, .infinite t => if s = t then .infinite s else .nan
  | .infinite s, _ | _, .infinite s => .infinite s
  | .finite s a, .finite t b =>
    let signed (negative : Bool) (rank : Nat) : Int :=
      if negative then -(units rank : Int) else units rank
    let sum := signed s a + signed t b
    ofRatio (if sum = 0 then s && t else sum < 0) sum.natAbs unitsPerOne

/-- The rounded product. Nought times infinity has none. -/
def mul (x y : Double) : Double :=
  match x, y with
  | .nan, _ | _, .nan => .nan
  | .infinite s, .infinite t => .infinite (s != t)
  | .infinite s, .finite t a | .finite t a, .infinite s =>
    if a.val = 0 then .nan else .infinite (s != t)
  | .finite s a, .finite t b => ofRatio (s != t) (units a * units b) (unitsPerOne * unitsPerOne)

theorem units_of_lt {rank : Nat} (h : rank < 2 * binade) : units rank = rank := by
  unfold units
  split
  · rfl
  · next hb =>
    have hb : binade ≤ rank := Nat.le_of_not_lt hb
    have h1 : rank / binade = 1 := Nat.div_eq_of_lt_le (by omega) (by omega)
    have h2 : rank % binade = rank - binade := by
      rw [Nat.mod_eq_sub_mod hb, Nat.mod_eq_of_lt (by omega)]
    simp only [h1, h2, Nat.sub_self, Nat.pow_eq, Nat.pow_zero, Nat.mul_one]
    omega

end Double

end Reshape
