/-!
# Reading numbers

`Numeral` follows a number of JSON character by character. Digits are collected in a significand
of 64 bits; once a digit does not fit, it and the digits after it only count for the exponent.
The result is the significand as a float, scaled by a power of ten, so it can differ from the
nearest float in the last place.
-/

namespace JsonQuery.Json

/-- What has been read of a number last. -/
inductive Phase where
  | minus
  | zero
  | whole
  | wholeDropped
  | point
  | fraction
  | fractionDropped
  | exponentMark
  | exponentSign
  | exponent
  deriving DecidableEq, Repr

/-- A number that has been read in part: `significand * 10 ^ (scale ± exponent)`. -/
structure Numeral where
  negative : Bool
  phase : Phase
  significand : Nat
  scale : Int
  shrinks : Bool
  exponent : Nat
  deriving DecidableEq, Repr

def digit? (c : Char) : Option Nat :=
  if c.isDigit then some (c.toNat - '0'.toNat) else none

namespace Numeral

/-- Every significand fits 64 bits. -/
def fits (significand : Nat) : Bool := significand < UInt64.size

def start? (c : Char) : Option Numeral :=
  if c = '-' then some ⟨true, .minus, 0, 0, false, 0⟩
  else if c = '0' then some ⟨false, .zero, 0, 0, false, 0⟩
  else (digit? c).map fun d => ⟨false, .whole, d, 0, false, 0⟩

def pushMark? (n : Numeral) (c : Char) : Option Numeral :=
  if c = 'e' ∨ c = 'E' then some { n with phase := .exponentMark } else none

def pushPoint? (n : Numeral) (c : Char) : Option Numeral :=
  if c = '.' then some { n with phase := .point } else n.pushMark? c

def pushWhole (n : Numeral) (d : Nat) : Numeral :=
  let next := 10 * n.significand + d
  if fits next then { n with significand := next }
  else { n with phase := .wholeDropped, scale := n.scale + 1 }

def pushFraction (n : Numeral) (d : Nat) : Numeral :=
  let next := 10 * n.significand + d
  if fits next then { n with phase := .fraction, significand := next, scale := n.scale - 1 }
  else { n with phase := .fractionDropped }

def pushExponent (n : Numeral) (d : Nat) : Numeral :=
  { n with phase := .exponent, exponent := 10 * n.exponent + d }

def push? (n : Numeral) (c : Char) : Option Numeral :=
  match n.phase, digit? c with
  | .minus, some d => some { n with phase := if d = 0 then .zero else .whole, significand := d }
  | .minus, none => none
  | .zero, _ => n.pushPoint? c
  | .whole, some d => some (n.pushWhole d)
  | .whole, none => n.pushPoint? c
  | .wholeDropped, some _ => some { n with scale := n.scale + 1 }
  | .wholeDropped, none => n.pushPoint? c
  | .point, some d => some (n.pushFraction d)
  | .point, none => none
  | .fraction, some d => some (n.pushFraction d)
  | .fraction, none => n.pushMark? c
  | .fractionDropped, some _ => some n
  | .fractionDropped, none => n.pushMark? c
  | .exponentMark, some d => some (n.pushExponent d)
  | .exponentMark, none =>
    if c = '+' then some { n with phase := .exponentSign }
    else if c = '-' then some { n with phase := .exponentSign, shrinks := true }
    else none
  | .exponentSign, some d => some (n.pushExponent d)
  | .exponentSign, none => none
  | .exponent, some d => some (n.pushExponent d)
  | .exponent, none => none

/-- The exponent does not fit 32 bits, and the number is too large whatever follows. -/
def overflows (n : Numeral) : Bool :=
  n.phase = .exponent && !n.shrinks && n.significand != 0 && 2147483647 < n.exponent

def isComplete (n : Numeral) : Bool :=
  match n.phase with
  | .zero | .whole | .wholeDropped | .fraction | .fractionDropped | .exponent => true
  | .minus | .point | .exponentMark | .exponentSign => false

/-- A complete number, which `c` does not go on with. A zero in front is the only digit there. -/
def endsBefore (n : Numeral) (c : Char) : Bool :=
  n.isComplete && !(n.phase = .zero && c.isDigit)

end Numeral

/-- The float nearest to `10 ^ n`. -/
def powerOfTen (n : Nat) : Float := Float.ofScientific 1 false n

/-- Divides by `10 ^ n`, in several steps if that power is too large for a float. -/
def scaleDown (x : Float) (n : Nat) : Float :=
  if h : n ≤ 308 then x / powerOfTen n
  else if x == 0 then x
  else scaleDown (x / powerOfTen 308) (n - 308)
termination_by n
decreasing_by omega

/-- Multiplies by `10 ^ e`, unless the result is too large. -/
def scale? (x : Float) (e : Int) : Option Float :=
  if e = 0 then some x
  else if e < 0 then some (scaleDown x e.natAbs)
  else if e ≤ 308 then
    let product := x * powerOfTen e.natAbs
    if product.isInf then none else some product
  else if x == 0 then some x
  else none

/-- The float that a complete number stands for, unless it is too large. -/
def Numeral.value? (n : Numeral) : Option Float :=
  let e := if n.shrinks then n.scale - n.exponent else n.scale + n.exponent
  (scale? (Float.ofNat n.significand) e).map fun x => if n.negative then -x else x

end JsonQuery.Json
