import JsonQuery.Decimal.Binary64

/-!
# The shortest decimal of a double

Of all decimals that round to a double, `Dyadic.shortest` is one with the fewest digits, and the
nearest of those. For one digit, two digits and so on it tries the two neighbours of the number
on the grid of decimals with that many digits; the first grid with a neighbour in the rounding
interval wins.
-/

namespace JsonQuery

/-- The number `coefficient * 10 ^ exponent`. -/
structure Decimal where
  coefficient : Nat
  exponent : Int
  deriving DecidableEq, Repr

def digitCount (n : Nat) : Nat :=
  if n = 0 then 0 else digitCount (n / 10) + 1

/-- The exponent `e` with `10 ^ e ≤ numerator / denominator < 10 ^ (e + 1)`. -/
def leadingExponent (numerator denominator : Nat) : Int :=
  if denominator ≤ numerator then (digitCount (numerator / denominator) : Int) - 1
  else -(digitCount ((denominator - 1) / numerator) : Int)

/-- The same number with no trailing zero in the coefficient. -/
def Decimal.trim (d : Decimal) : Decimal :=
  if h : d.coefficient ≠ 0 ∧ d.coefficient % 10 = 0 then
    Decimal.trim ⟨d.coefficient / 10, d.exponent + 1⟩
  else d
termination_by d.coefficient
decreasing_by exact Nat.div_lt_self (Nat.pos_of_ne_zero h.1) (by decide)

namespace Dyadic

/-- The lower neighbour of a power of two is half as far away as the upper one, but for the
smallest normal number. Counted in quarters of the last place. -/
def lowerReach (d : Dyadic) : Nat :=
  if d.significand = Nat.pow 2 52 ∧ d.exponent ≠ -1074 then 1 else 2

/-- Whether `coefficient * 10 ^ grid` rounds to the double. Halfway points belong to the double
with the even significand. -/
def covers (d : Dyadic) (grid : Int) (coefficient : Nat) : Bool :=
  let unit := Nat.pow 2 d.exponent.toNat * Nat.pow 10 (-grid).toNat
  let point := coefficient * (4 * Nat.pow 10 grid.toNat * d.denominator)
  let low := (4 * d.significand - d.lowerReach) * unit
  let high := (4 * d.significand + 2) * unit
  if d.significand % 2 = 0 then low ≤ point && point ≤ high else low < point && point < high

def floorOn (d : Dyadic) (grid : Int) : Nat :=
  d.numerator * Nat.pow 10 (-grid).toNat / (d.denominator * Nat.pow 10 grid.toNat)

/-- The nearer of the two neighbours on the grid `10 ^ grid` among those that round to the
double. Of two that are equally near the upper one is taken. -/
def nearestOn? (d : Dyadic) (grid : Int) : Option Decimal :=
  let below := d.floorOn grid
  match d.covers grid below, d.covers grid (below + 1) with
  | true, true =>
    let twice := 2 * (d.numerator * Nat.pow 10 (-grid).toNat)
    if twice < (2 * below + 1) * (d.denominator * Nat.pow 10 grid.toNat) then some ⟨below, grid⟩
    else some ⟨below + 1, grid⟩
  | true, false => some ⟨below, grid⟩
  | false, true => some ⟨below + 1, grid⟩
  | false, false => none

/-- Seventeen digits always suffice for a double. -/
def shortest (d : Dyadic) : Decimal :=
  if d.significand = 0 then ⟨0, 0⟩
  else
    let lead := leadingExponent d.numerator d.denominator
    match (List.range 17).findSome? fun (extra : Nat) => d.nearestOn? (lead - extra) with
    | some decimal => decimal.trim
    | none => ⟨d.floorOn (lead - 16), lead - 16⟩

end Dyadic

end JsonQuery
