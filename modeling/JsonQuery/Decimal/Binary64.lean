/-!
# The exact value of a double

`Binary64.ofFloat` reads the sign, exponent and fraction fields of a double. A finite double is
`significand * 2 ^ exponent` with a sign, so that all questions about its decimal spellings are
questions about natural numbers.
-/

namespace JsonQuery

/-- The number `significand * 2 ^ exponent`. -/
structure Dyadic where
  significand : Nat
  exponent : Int
  deriving Repr, DecidableEq

namespace Dyadic

/-- `numerator / denominator` is the number. -/
def numerator (d : Dyadic) : Nat := d.significand * Nat.pow 2 d.exponent.toNat

def denominator (d : Dyadic) : Nat := Nat.pow 2 (-d.exponent).toNat

/-- How many places after the point the decimal expansion needs at most. -/
def exactPlaces (d : Dyadic) : Nat := (-d.exponent).toNat

end Dyadic

inductive Binary64 where
  | nan
  | infinite (negative : Bool)
  | finite (negative : Bool) (size : Dyadic)
  deriving Repr, DecidableEq

namespace Binary64

/-- Reads the fields of the 64 bits: sign, 11 bits of exponent, 52 bits of fraction. -/
def ofBits (bits : Nat) : Binary64 :=
  let negative : Bool := Nat.pow 2 63 ≤ bits
  let biased : Nat := bits / Nat.pow 2 52 % Nat.pow 2 11
  let fraction : Nat := bits % Nat.pow 2 52
  if biased = 2047 then
    if fraction = 0 then .infinite negative else .nan
  else if biased = 0 then .finite negative ⟨fraction, -1074⟩
  else .finite negative ⟨Nat.pow 2 52 + fraction, biased - 1075⟩

def ofFloat (x : Float) : Binary64 := ofBits x.toBits.toNat

end Binary64

/-! ### Rounding to a number of places -/

/-- `numerator / denominator` to the nearest natural number, a half to the even neighbour. -/
def roundHalfEven (numerator denominator : Nat) : Nat :=
  let quotient := numerator / denominator
  let twice := 2 * (numerator % denominator)
  if twice < denominator then quotient
  else if denominator < twice then quotient + 1
  else if quotient % 2 = 0 then quotient
  else quotient + 1

/-- The number times `10 ^ places`, rounded. -/
def Dyadic.roundAt (d : Dyadic) (places : Int) : Nat :=
  roundHalfEven (d.numerator * Nat.pow 10 places.toNat) (d.denominator * Nat.pow 10 (-places).toNat)

end JsonQuery
