import JsonQuery.Decimal.Binary64
import JsonQuery.Decimal.Shortest

/-!
# Spellings of numbers

Digits are laid out either positionally or with an exponent. `positionalText`
and `generalText` spell the same shortest digits; `fixedText` and `scientificText` round the exact
value to a given number of places. The sign of a zero is kept.
-/

namespace JsonQuery

def digits (n : Nat) : List Char := Nat.toDigits 10 n

def zeros (count : Nat) : List Char := List.replicate count '0'

namespace Decimal

def leading (d : Decimal) : Int := d.exponent + ((digits d.coefficient).length - 1 : Nat)

/-- The digits with a point where it belongs, and zeros up to the point. -/
def positional (d : Decimal) : List Char :=
  let ds := digits d.coefficient
  if 0 ≤ d.exponent then ds ++ zeros d.exponent.toNat
  else
    let places := (-d.exponent).toNat
    if places < ds.length then
      ds.take (ds.length - places) ++ '.' :: ds.drop (ds.length - places)
    else '0' :: '.' :: (zeros (places - ds.length) ++ ds)

end Decimal

def mantissa : List Char → List Char
  | [] => []
  | [digit] => [digit]
  | digit :: others => digit :: '.' :: others

/-- A sign and at least two digits. -/
def exponentPart (e : Int) : List Char :=
  let ds := digits e.natAbs
  'e' :: (if e < 0 then '-' else '+') :: (zeros (2 - ds.length) ++ ds)

namespace Decimal

def scientific (d : Decimal) : List Char :=
  mantissa (digits d.coefficient) ++ exponentPart d.leading

/-- Positional where the leading digit stands between the fourth place after the point and the
sixth before it, else with an exponent. -/
def general (d : Decimal) : List Char :=
  if -4 ≤ d.leading ∧ d.leading < 6 then d.positional else d.scientific

end Decimal

namespace Dyadic

/-- Exactly `places` digits after the point, and no point if there are none. Beyond the places
that the exact value needs there are only zeros. -/
def fixed (d : Dyadic) (places : Nat) : List Char :=
  let kept := min places d.exactPlaces
  let ds := digits (d.roundAt kept)
  let padded := zeros (kept + 1 - ds.length) ++ ds
  let whole := padded.take (padded.length - kept)
  let part := padded.drop (padded.length - kept)
  if places = 0 then whole else whole ++ '.' :: (part ++ zeros (places - kept))

/-- One digit before the point and `places` after it. Rounding up to the next power of ten moves
the exponent. -/
def scientific (d : Dyadic) (places : Nat) : List Char :=
  if d.significand = 0 then mantissa (zeros (places + 1)) ++ exponentPart 0
  else
    let lead := leadingExponent d.numerator d.denominator
    let wanted : Int := places - lead
    let kept := min wanted d.exactPlaces
    let ds := digits (d.roundAt kept)
    let more := zeros (wanted - kept).toNat
    if (ds.length : Int) = lead + kept + 1 then mantissa (ds ++ more) ++ exponentPart lead
    else mantissa ((ds ++ more).take (places + 1)) ++ exponentPart (lead + 1)

end Dyadic

def signed (negative : Bool) (text : List Char) : List Char :=
  if negative then '-' :: text else text

def integerText (n : Int) : List Char := signed (n < 0) (digits n.natAbs)

/-- The shortest digits that read back, without an exponent. -/
def positionalText (x : Float) : String :=
  match Binary64.ofFloat x with
  | .nan => "NaN"
  | .infinite negative => if negative then "-inf" else "inf"
  | .finite negative size => String.ofList (signed negative size.shortest.positional)

/-- The shortest digits that read back, with an exponent if the number is large or small. -/
def generalText (x : Float) : String :=
  match Binary64.ofFloat x with
  | .nan => "NaN"
  | .infinite negative => if negative then "-Inf" else "+Inf"
  | .finite negative size => String.ofList (signed negative size.shortest.general)

/-- The exact value, rounded to `places` digits after the point. -/
def fixedText (places : Nat) (x : Float) : String :=
  match Binary64.ofFloat x with
  | .nan => "NaN"
  | .infinite negative => if negative then "-inf" else "inf"
  | .finite negative size => String.ofList (signed negative (size.fixed places))

/-- The exact value, rounded to one digit before the point and `places` after it. -/
def scientificText (places : Nat) (x : Float) : String :=
  match Binary64.ofFloat x with
  | .nan => "NaN"
  | .infinite negative => if negative then "-inf" else "inf"
  | .finite negative size => String.ofList (signed negative (size.scientific places))

end JsonQuery
