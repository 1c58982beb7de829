import JsonQuery.Query.Expression

/-!
# Built-in functions

Every built-in function turns its bound arguments into an expression. It checks how many there
are and then that no constant has a role which its kind can never fill.
-/

namespace JsonQuery.Query

inductive Builtin where
  | id
  | elem
  | keys
  | array
  | object
  | pipe
  | sprintf
  | join
  | filter
  | eq
  | lt
  | gt
  | range
  | and
  | or
  | not
  | ifte
  | error
  | recover
  deriving DecidableEq, Repr

inductive Arity where
  | exactly (count : Nat)
  | oneOrTwo
  | even
  | atLeastOne
  | any
  deriving DecidableEq, Repr

namespace Arity

def accepts : Arity → Nat → Bool
  | exactly count, n => n = count
  | oneOrTwo, n => n = 1 || n = 2
  | even, n => n % 2 = 0
  | atLeastOne, n => 1 ≤ n
  | any, _ => true

def message : Arity → String
  | exactly count => toString count
  | oneOrTwo => "1 or 2"
  | even => "an even number of"
  | atLeastOne => "at least 1"
  | any => "any number of"

end Arity

/-- What some arguments are for. Only strings or only integers can fill these roles. -/
inductive Role where
  | key
  | format
  | separator
  | rangeBegin
  | rangeEnd
  deriving DecidableEq, Repr

namespace Role

def name : Role → String
  | key => "key"
  | format => "format"
  | separator => "separator"
  | rangeBegin => "begin"
  | rangeEnd => "end"

def kind : Role → Kind
  | key | format | separator => .string
  | rangeBegin | rangeEnd => .integer

def wanted : Role → String
  | key | format | separator => "a string"
  | rangeBegin | rangeEnd => "an integer"

end Role

/-- The parts of an expression that have a role, in the order in which they are checked. -/
def Expression.roles : Expression → List (Role × Expression)
  | .object pairs => pairs.map fun pair => (.key, pair.1)
  | .sprintf template _ => [(.format, template)]
  | .join _ separator => [(.separator, separator)]
  | .range first last => [(.rangeBegin, first), (.rangeEnd, last)]
  | _ => []

/-- The kind of a constant that cannot fill its role. -/
def Role.misfit? (role : Role) : Expression → Option Kind
  | .constant value => if value.kind = role.kind then none else some value.kind
  | _ => none

/-- What is said of a constant of a kind that cannot fill the role. -/
def Role.complaint (role : Role) (got : Kind) : String :=
  role.name ++ " must be " ++ role.wanted ++ ", got " ++ got.name

/-- Why a query is not bound. The texts are those of the constructor that fails, which need not be
a built-in one. -/
inductive BindError where
  | unknownFunction (name : String)
  | arity (function expected : String) (got : Nat)
  | shape (function complaint : String)
  deriving DecidableEq, Repr

def pairUp? : List Expression → Option (List (Expression × Expression))
  | [] => some []
  | [_] => none
  | key :: value :: rest => (pairUp? rest).map ((key, value) :: ·)

namespace Builtin

def all : List Builtin :=
  [id, elem, keys, array, object, pipe, sprintf, join, filter, eq, lt, gt, range, and, or, not,
    ifte, error, recover]

def name : Builtin → String
  | id => "id"
  | elem => "elem"
  | keys => "keys"
  | array => "array"
  | object => "object"
  | pipe => "pipe"
  | sprintf => "sprintf"
  | join => "join"
  | filter => "filter"
  | eq => "eq"
  | lt => "lt"
  | gt => "gt"
  | range => "range"
  | and => "and"
  | or => "or"
  | not => "not"
  | ifte => "ifte"
  | error => "error"
  | recover => "recover"

def ofName? (name : String) : Option Builtin := all.find? fun builtin => builtin.name = name

def arity : Builtin → Arity
  | id | keys => .exactly 0
  | elem | join | filter | range => .oneOrTwo
  | object => .even
  | pipe | sprintf => .atLeastOne
  | eq | lt | gt => .exactly 2
  | not | error | recover => .exactly 1
  | ifte => .exactly 3
  | array | and | or => .any

/-- The expression for these arguments, if their number is right. Arguments that are left out
have defaults: the identity, the empty string or zero. -/
def assemble? : Builtin → List Expression → Option Expression
  | id, [] => some .identity
  | elem, [positions] => some (.element positions .identity)
  | elem, [positions, leaf] => some (.element positions leaf)
  | keys, [] => some .keys
  | array, args => some (.array args)
  | object, args => (pairUp? args).map .object
  | pipe, stage :: stages => some (.pipe (stage :: stages))
  | sprintf, template :: args => some (.sprintf template args)
  | join, [items] => some (.join items (.constant (.string "")))
  | join, [items, separator] => some (.join items separator)
  | filter, [condition] => some (.filter condition .identity)
  | filter, [condition, transform] => some (.filter condition transform)
  | eq, [left, right] => some (.equal left right)
  | lt, [left, right] => some (.compare .lessThan left right)
  | gt, [left, right] => some (.compare .greaterThan left right)
  | range, [last] => some (.range (.constant (.integer 0)) last)
  | range, [first, last] => some (.range first last)
  | and, args => some (.and args)
  | or, args => some (.or args)
  | not, [operand] => some (.not operand)
  | ifte, [condition, thenBranch, elseBranch] =>
    some (.ifThenElse condition thenBranch elseBranch)
  | error, [message] => some (.error message)
  | recover, [body] => some (.recover body)
  | _, _ => none

theorem isSome_pairUp? (args : List Expression) :
    (pairUp? args).isSome = decide (args.length % 2 = 0) := by
  fun_induction pairUp? args with
  | case1 => rfl
  | case2 => rfl
  | case3 key value rest ih =>
    rw [Option.isSome_map, ih, List.length_cons, List.length_cons, Nat.add_assoc,
      Nat.add_mod_right]

/-- An expression is made exactly of the numbers of arguments that the arity accepts. -/
theorem isSome_assemble? (builtin : Builtin) (args : List Expression) :
    (builtin.assemble? args).isSome = builtin.arity.accepts args.length := by
  cases builtin <;>
    rcases args with _ | ⟨_, _ | ⟨_, _ | ⟨_, _ | ⟨_, _⟩⟩⟩⟩ <;>
    simp [assemble?, arity, Arity.accepts, isSome_pairUp?]

def build (builtin : Builtin) (args : List Expression) : Except BindError Expression :=
  match builtin.assemble? args with
  | none => .error (.arity builtin.name builtin.arity.message args.length)
  | some e =>
    match e.roles.findSome? fun part => (part.1.misfit? part.2).map (part.1, ·) with
    | some (role, got) => .error (.shape builtin.name (role.complaint got))
    | none => .ok e

end Builtin

def BindError.message : BindError → String
  | unknownFunction name => "no such function: " ++ name
  | arity function expected got =>
    function ++ " expects " ++ expected ++ " argument(s), got " ++ toString got
  | shape function complaint => function ++ ": " ++ complaint

end JsonQuery.Query
