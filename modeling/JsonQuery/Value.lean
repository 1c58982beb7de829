import JsonQuery.Entries

/-!
# Values

The JSON values that a query works on. Integers are written in queries or counted by them;
numbers decoded from JSON are floats. The two kinds compare with each other but are never equal.
The fields of an object may stand in any order; it carries no meaning.
-/

namespace JsonQuery

inductive Value where
  | null
  | boolean (b : Bool)
  | float (x : Float)
  | integer (n : Int64)
  | string (s : String)
  | array (items : List Value)
  | object (fields : List (String × Value))
  deriving Inhabited

inductive Kind where
  | null
  | boolean
  | float
  | integer
  | string
  | array
  | object
  deriving DecidableEq, Repr

def Kind.name : Kind → String
  | .null => "null"
  | .boolean => "boolean"
  | .float => "float"
  | .integer => "integer"
  | .string => "string"
  | .array => "array"
  | .object => "object"

namespace Value

def kind : Value → Kind
  | null => .null
  | boolean _ => .boolean
  | float _ => .float
  | integer _ => .integer
  | string _ => .string
  | array _ => .array
  | object _ => .object

/-- Only `null` and `false` are not. -/
def isTruthy : Value → Bool
  | null | boolean false => false
  | _ => true

/-- The number as a float, an integer being rounded to the nearest one. -/
def asFloat? : Value → Option Float
  | integer n => some (Float.ofInt n.toInt)
  | float x => some x
  | _ => none

/-- All integers are less than this number, which is two to the power of 63. -/
def integerBound : Nat := 9223372036854775808

/-! ### Structural equality -/

mutual

/-- Equal structure, equal scalars of equal kind. Floats are equal as numbers, so a NaN differs
from itself and the two zeros are equal. Objects are equal if they have as many fields and every
field of the one has an equal one in the other. -/
def deepEq : Value → Value → Bool
  | null, null => true
  | boolean a, boolean b => a == b
  | float a, float b => a == b
  | integer a, integer b => a == b
  | string a, string b => a == b
  | array xs, array ys => deepEqItems xs ys
  | object xs, object ys => xs.length == ys.length && deepEqFields xs ys
  | _, _ => false

def deepEqItems : List Value → List Value → Bool
  | [], [] => true
  | x :: xs, y :: ys => deepEq x y && deepEqItems xs ys
  | _, _ => false

def deepEqFields : Entries Value → Entries Value → Bool
  | [], _ => true
  | (key, x) :: xs, ys =>
    (match Entries.find? key ys with
      | some y => deepEq x y
      | none => false) && deepEqFields xs ys

end

/-! ### Order -/

inductive Comparison where
  | lessThan
  | greaterThan
  deriving DecidableEq, Repr

def Comparison.ofStrings : Comparison → String → String → Bool
  | .lessThan, a, b => a < b
  | .greaterThan, a, b => b < a

def Comparison.ofFloats : Comparison → Float → Float → Bool
  | .lessThan, a, b => a < b
  | .greaterThan, a, b => b < a

/-- Strings compare by code point, numbers as floats. Everything else is unordered. -/
def compares (comparison : Comparison) (left right : Value) : Bool :=
  match left, right with
  | string a, string b => comparison.ofStrings a b
  | left, right =>
    match left.asFloat?, right.asFloat? with
    | some a, some b => comparison.ofFloats a b
    | _, _ => false

end Value

end JsonQuery
