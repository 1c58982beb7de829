import JsonQuery.Platform
import JsonQuery.Template.Render

/-!
# Expressions

The operators of a compiled query. `Expression.evaluate` computes the result of an expression on an
input. Operands are evaluated from left to right and the first error ends the evaluation; only
`recover` turns an error into a value.
-/

namespace JsonQuery.Query

inductive Expression where
  | constant (value : Value)
  | identity
  /-- the parts of the input at the given positions, each passed through `leaf` -/
  | element (positions leaf : Expression)
  | keys
  | array (items : List Expression)
  | object (pairs : List (Expression × Expression))
  | pipe (stages : List Expression)
  | sprintf (template : Expression) (args : List Expression)
  | join (items separator : Expression)
  | filter (condition transform : Expression)
  | equal (left right : Expression)
  | compare (comparison : Value.Comparison) (left right : Expression)
  | range (first bound : Expression)
  | and (operands : List Expression)
  | or (operands : List Expression)
  | not (operand : Expression)
  | ifThenElse (condition thenBranch elseBranch : Expression)
  | error (message : Expression)
  | recover (body : Expression)
  deriving Inhabited

/-! ### Errors -/

inductive Bound where
  | first
  | last
  deriving DecidableEq, Repr

def Bound.name : Bound → String
  | .first => "begin"
  | .last => "end"

inductive EvalError where
  | objectKey (index : Nat) (got : Kind)
  | template (got : Kind)
  | separator (got : Kind)
  | filterInput (got : Kind)
  | keysInput (got : Kind)
  | indexInput (index : Int64) (got : Kind)
  | fieldInput (field : String) (got : Kind)
  | position (got : Kind)
  | rangeBound (bound : Bound) (got : Kind)
  | rangeTooLarge (first last : Int64)
  | raised (message : String)
  | indexTooLarge (index : Nat)
  deriving DecidableEq, Repr

inductive EvalError.Family where
  | type
  | outOfDomain
  | user
  | internal
  deriving DecidableEq, Repr

namespace EvalError

def family : EvalError → Family
  | rangeTooLarge .. => .outOfDomain
  | raised _ => .user
  | indexTooLarge _ => .internal
  | _ => .type

def Family.name : Family → String
  | .type => "type error"
  | .outOfDomain => "out of domain"
  | .user => "error"
  | .internal => "internal error"

def detail : EvalError → String
  | objectKey index got =>
    "object key at position " ++ toString index ++ " must be a string, got " ++ got.name
  | template got => "sprintf format must be a string, got " ++ got.name
  | separator got => "join separator must be a string, got " ++ got.name
  | filterInput got => "filter requires an array, got " ++ got.name
  | keysInput got => "keys requires an array or object, got " ++ got.name
  | indexInput index got =>
    "integer position " ++ String.ofList (integerText index.toInt) ++
      " requires an array, got " ++ got.name
  | fieldInput field got =>
    "string position \"" ++ field ++ "\" requires an object, got " ++ got.name
  | position got =>
    "invalid position of type " ++ got.name ++ "; expected integer, string, array or object"
  | rangeBound bound got => "range " ++ bound.name ++ " must be an integer, got " ++ got.name
  | rangeTooLarge first last =>
    "range " ++ String.ofList (integerText first.toInt) ++ ".." ++
      String.ofList (integerText last.toInt) ++ " is too large"
  | raised message => message
  | indexTooLarge index => "array index " ++ toString index ++ " exceeds i64"

def message (e : EvalError) : String := e.family.name ++ ": " ++ e.detail

end EvalError

abbrev Result := Except EvalError

/-! ### Positions -/

/-- The parts of a value as positions address them. -/
inductive Parts where
  | items (items : Array Value)
  | fields (fields : Entries Value)
  /-- a value of this kind has no parts -/
  | none (kind : Kind)

def partsOf : Value → Parts
  | .array items => .items items.toArray
  | .object fields => .fields fields
  | value => .none value.kind

def Parts.kind : Parts → Kind
  | .items _ => .array
  | .fields _ => .object
  | .none kind => kind

/-- What `index` addresses. An index outside of the array addresses nothing. -/
def item? (items : Array Value) (index : Int64) : Option Value :=
  if 0 ≤ index.toInt then items[index.toInt.toNat]? else none

/-- The part at one position, through `leaf`; `null` if there is none. -/
def address (leaf : Value → Result Value) (parts : Parts) : Value → Result Value
  | .integer index =>
    match parts with
    | .items items =>
      match item? items index with
      | some item => leaf item
      | none => .ok .null
    | parts => .error (.indexInput index parts.kind)
  | .string field =>
    match parts with
    | .fields fields =>
      match Entries.find? field fields with
      | some value => leaf value
      | none => .ok .null
    | parts => .error (.fieldInput field parts.kind)
  | other => .error (.position other.kind)

mutual

/-- Replaces every integer and string in a structure of positions by what it addresses. -/
def resolve (leaf : Value → Result Value) (parts : Parts) : Value → Result Value
  | .array positions => do return .array (← resolveItems leaf parts positions)
  | .object positions => do return .object (← resolveFields leaf parts positions)
  | position => address leaf parts position

def resolveItems (leaf : Value → Result Value) (parts : Parts) :
    List Value → Result (List Value)
  | [] => .ok []
  | position :: rest => do
    let value ← resolve leaf parts position
    return value :: (← resolveItems leaf parts rest)

/-- The fields are resolved in the order of the list. The table of a program has no order of its
own: which of several fields that fail is reported may change there from one evaluation to the
next. -/
def resolveFields (leaf : Value → Result Value) (parts : Parts) :
    List (String × Value) → Result (List (String × Value))
  | [] => .ok []
  | (key, position) :: rest => do
    let value ← resolve leaf parts position
    return (key, value) :: (← resolveFields leaf parts rest)

end

/-! ### Operators -/

/-- The positions of all parts: indices or, in ascending order, keys. -/
def keysOf : Value → Result Value
  | .array items =>
    if items.length ≤ Value.integerBound then
      .ok (.array ((List.range items.length).map fun index => .integer (Int64.ofNat index)))
    else .error (.indexTooLarge Value.integerBound)
  | .object fields => .ok (.array ((Entries.sorted fields).keys.map .string))
  | input => .error (.keysInput input.kind)

/-- The items that meet `condition`, through `transform`. -/
def filterItems (condition transform : Value → Result Value) : List Value → Result (List Value)
  | [] => .ok []
  | item :: rest => do
    if (← condition item).isTruthy then
      let value ← transform item
      return value :: (← filterItems condition transform rest)
    else filterItems condition transform rest

/-- The texts of the items of an array with `separator` in between; the text of anything else. -/
def joinItems (separator : String) : Value → Value
  | .array items => .string (separator.intercalate (items.map Value.text))
  | value => .string value.text

variable [Platform]

/-- The integers from `first` on that are less than `last`. Their number must be an integer itself,
and there must be room for them. -/
def rangeOf (first last : Int64) : Result Value :=
  if last ≤ first then .ok (.array [])
  else
    let span := (last.toInt - first.toInt).toNat
    if span < Value.integerBound ∧ Platform.hasRoom span then
      .ok (.array ((List.range span).map fun (index : Nat) =>
        .integer (Int64.ofInt (first.toInt + index))))
    else .error (.rangeTooLarge first last)

def rangeBound (bound : Bound) : Value → Result Int64
  | .integer n => .ok n
  | value => .error (.rangeBound bound value.kind)

namespace Expression

mutual

def evaluate : Expression → Value → Result Value
  | .constant value, _ => .ok value
  | .identity, input => .ok input
  | .element positions leaf, input => do
    let positions ← evaluate positions input
    resolve (evaluate leaf) (partsOf input) positions
  | .keys, input => keysOf input
  | .array items, input => do return .array (← evaluateAll items input)
  | .object pairs, input => do return .object (Entries.ofWrites (← evaluatePairs 0 pairs input))
  | .pipe stages, input => evaluatePipe stages input
  | .sprintf template args, input => do
    match ← evaluate template input with
    | .string template => return .string (Template.fill template (← evaluateAll args input))
    | other => .error (.template other.kind)
  | .join items separator, input => do
    match ← evaluate separator input with
    | .string separator => return joinItems separator (← evaluate items input)
    | other => .error (.separator other.kind)
  | .filter condition transform, input =>
    match input with
    | .array items => do return .array (← filterItems (evaluate condition) (evaluate transform) items)
    | input => .error (.filterInput input.kind)
  | .equal left right, input => do
    let left ← evaluate left input
    let right ← evaluate right input
    return .boolean (left.deepEq right)
  | .compare comparison left right, input => do
    let left ← evaluate left input
    let right ← evaluate right input
    return .boolean (left.compares comparison right)
  | .range first last, input => do
    let first ← rangeBound .first (← evaluate first input)
    let last ← rangeBound .last (← evaluate last input)
    rangeOf first last
  | .and operands, input => evaluateAnd operands input
  | .or operands, input => evaluateOr operands input
  | .not operand, input => do return .boolean (!(← evaluate operand input).isTruthy)
  | .ifThenElse condition thenBranch elseBranch, input => do
    if (← evaluate condition input).isTruthy then evaluate thenBranch input
    else evaluate elseBranch input
  | .error message, input => do .error (.raised (← evaluate message input).text)
  | .recover body, input =>
    match evaluate body input with
    | .ok value => .ok value
    | .error _ => .ok .null

def evaluateAll : List Expression → Value → Result (List Value)
  | [], _ => .ok []
  | e :: rest, input => do
    let value ← evaluate e input
    return value :: (← evaluateAll rest input)

/-- The pairs from the one at `index` on; a key must be a string. -/
def evaluatePairs (index : Nat) :
    List (Expression × Expression) → Value → Result (List (String × Value))
  | [], _ => .ok []
  | (key, value) :: rest, input => do
    match ← evaluate key input with
    | .string key =>
      let value ← evaluate value input
      return (key, value) :: (← evaluatePairs (index + 1) rest input)
    | other => .error (.objectKey index other.kind)

def evaluatePipe : List Expression → Value → Result Value
  | [], input => .ok input
  | stage :: rest, input => do evaluatePipe rest (← evaluate stage input)

def evaluateAnd : List Expression → Value → Result Value
  | [], _ => .ok (.boolean true)
  | operand :: rest, input => do
    if (← evaluate operand input).isTruthy then evaluateAnd rest input else .ok (.boolean false)

def evaluateOr : List Expression → Value → Result Value
  | [], _ => .ok (.boolean false)
  | operand :: rest, input => do
    if (← evaluate operand input).isTruthy then .ok (.boolean true) else evaluateOr rest input

end

end Expression

end JsonQuery.Query
