import JsonQuery.Json.Number
import JsonQuery.Text.Characters
import JsonQuery.Value

/-!
# Reading JSON

A `Reader` takes a stream of JSON values byte by byte and keeps the values that are complete.
Values are separated by blanks, or by nothing where no blank is needed. `decodeAll` reads a whole
stream and `decode` a text with exactly one value. An error says what is wrong and how far the
stream has been read when it shows.
-/

namespace JsonQuery.Json

/-! ### Errors -/

/-- A text that is not JSON whatever follows, or one that ends too early. -/
inductive Failure where
  | malformed
  | incomplete
  deriving DecidableEq, Repr

/-- What is wrong with a text. -/
inductive Problem where
  | endInArray
  | endInObject
  | endInString
  | endInValue
  | expectedColon
  | expectedArrayNext
  | expectedObjectNext
  | expectedWord
  | expectedValue
  | invalidEscape
  | invalidNumber
  | numberTooLarge
  | invalidText
  | control
  | keyNotString
  | loneSurrogate
  | trailingComma
  | trailingCharacters
  | unfinishedPair
  | tooDeep
  deriving DecidableEq, Repr

namespace Problem

def message : Problem → String
  | endInArray => "EOF while parsing a list"
  | endInObject => "EOF while parsing an object"
  | endInString => "EOF while parsing a string"
  | endInValue => "EOF while parsing a value"
  | expectedColon => "expected `:`"
  | expectedArrayNext => "expected `,` or `]`"
  | expectedObjectNext => "expected `,` or `\x7d`"
  | expectedWord => "expected ident"
  | expectedValue => "expected value"
  | invalidEscape => "invalid escape"
  | invalidNumber => "invalid number"
  | numberTooLarge => "number out of range"
  | invalidText => "invalid unicode code point"
  | control => "control character (\\u0000-\\u001F) found while parsing a string"
  | keyNotString => "key must be a string"
  | loneSurrogate => "lone leading surrogate in hex escape"
  | trailingComma => "trailing comma"
  | trailingCharacters => "trailing characters"
  | unfinishedPair => "unexpected end of hex escape"
  | tooDeep => "recursion limit exceeded"

def failure : Problem → Failure
  | endInArray | endInObject | endInString | endInValue => .incomplete
  | _ => .malformed

end Problem

/-- How far a stream has been read: the lines that have ended, and the bytes of the line after
them. -/
structure Location where
  lines : Nat
  column : Nat
  deriving DecidableEq, Repr

namespace Location

def start : Location := ⟨0, 0⟩

def after (p : Location) (byte : UInt8) : Location :=
  if byte = 0x0a then ⟨p.lines + 1, 0⟩ else ⟨p.lines, p.column + 1⟩

def advance (p : Location) (bytes : List UInt8) : Location := bytes.foldl after p

/-- What `q` is in a stream that has been read up to `p` before. -/
def shift (p q : Location) : Location :=
  ⟨p.lines + q.lines, if q.lines = 0 then p.column + q.column else q.column⟩

end Location

/-- What is wrong, and how far the stream has been read with the byte that shows it. -/
structure DecodeError where
  problem : Problem
  location : Location
  deriving DecidableEq, Repr

namespace DecodeError

def failure (error : DecodeError) : Failure := error.problem.failure

instance : Coe DecodeError Failure := ⟨failure⟩

def message (error : DecodeError) : String :=
  error.problem.message ++ " at line " ++ toString (error.location.lines + 1) ++
    " column " ++ toString error.location.column

/-- The same error behind the bytes that end at `p`. -/
def shift (p : Location) (error : DecodeError) : DecodeError :=
  { error with location := p.shift error.location }

end DecodeError

/-! ### String literals -/

/-- Where a string literal is within an escape sequence. -/
inductive Escape where
  | outside
  | backslash
  /-- the bytes read after a backslash and `u`, latest first, and the high surrogate before it -/
  | hex (high : Option Nat) (read : List UInt8)
  | low (high : Nat)
  /-- after a high surrogate and a backslash, in front of `u` -/
  | lowBackslash (high : Nat)
  deriving DecidableEq, Repr

/-- A string literal after its opening quote: the decoded bytes, latest first. -/
structure Literal where
  bytes : List UInt8
  escape : Escape
  deriving DecidableEq, Repr

inductive LiteralStep where
  | more (literal : Literal)
  | closed (s : String)
  | failed (problem : Problem)

def isHighSurrogate (unit : Nat) : Bool := 0xd800 ≤ unit && unit < 0xdc00

def isLowSurrogate (unit : Nat) : Bool := 0xdc00 ≤ unit && unit < 0xe000

namespace Literal

def opened : Literal := ⟨[], .outside⟩

def append (literal : Literal) (c : Char) : Literal :=
  ⟨(String.utf8EncodeChar c).reverse ++ literal.bytes, .outside⟩

/-- The four bytes of an escape by number. Surrogates must come in pairs. -/
def pushUnit (literal : Literal) (high : Option Nat) (digits : List UInt8) : LiteralStep :=
  match Text.hexValue? (digits.map Char.ofUInt8), high with
  | none, _ => .failed .invalidEscape
  | some unit, none =>
    if isLowSurrogate unit then .failed .loneSurrogate
    else if isHighSurrogate unit then .more { literal with escape := .low unit }
    else .more (literal.append (Char.ofNat unit))
  | some unit, some high =>
    if isLowSurrogate unit then
      .more (literal.append (Char.ofNat (0x10000 + (high - 0xd800) * 0x400 + (unit - 0xdc00))))
    else .failed .loneSurrogate

/-- The bytes are checked to be UTF-8 when the literal closes. -/
def push (literal : Literal) (byte : UInt8) : LiteralStep :=
  let c := Char.ofUInt8 byte
  match literal.escape with
  | .outside =>
    if c = '"' then
      match String.fromUTF8? literal.bytes.reverse.toByteArray with
      | some s => .closed s
      | none => .failed .invalidText
    else if c = '\\' then .more { literal with escape := .backslash }
    else if byte < 0x20 then .failed .control
    else .more { literal with bytes := byte :: literal.bytes }
  | .backslash =>
    if c = 'u' then .more { literal with escape := .hex none [] }
    else
      match Text.escaped? c with
      | some c => .more (literal.append c)
      | none => .failed .invalidEscape
  | .hex high read =>
    if read.length < 3 then .more { literal with escape := .hex high (byte :: read) }
    else literal.pushUnit high (byte :: read).reverse
  | .low high =>
    if c = '\\' then .more { literal with escape := .lowBackslash high }
    else .failed .unfinishedPair
  | .lowBackslash high =>
    if c = 'u' then .more { literal with escape := .hex (some high) [] }
    else .failed .unfinishedPair

end Literal

/-! ### Values and containers -/

/-- An open container whose last value is complete. Items are kept latest first. -/
inductive Container where
  | array (items : List Value)
  | object (fields : Entries Value)

/-- What is wrong with anything but a comma or the end after a value. -/
def Container.unexpected : Container → Problem
  | .array _ => .expectedArrayNext
  | .object _ => .expectedObjectNext

def Container.unclosed : Container → Problem
  | .array _ => .endInArray
  | .object _ => .endInObject

inductive Frame where
  | array (items : List Value)
  | object (fields : Entries Value) (key : String)

def Frame.place : Frame → Value → Container
  | .array items, value => .array (value :: items)
  | .object fields key, value => .object (fields.insert key value)

def Frame.unclosed : Frame → Problem
  | .array _ => .endInArray
  | .object .. => .endInObject

theorem Frame.unclosed_place (frame : Frame) (value : Value) :
    (frame.place value).unclosed = frame.unclosed := by
  cases frame <;> rfl

/-- What the next byte is read as. -/
inductive Mode where
  | between
  | value
  | firstItem
  | firstKey
  | nextKey (fields : Entries Value)
  | key (fields : Entries Value) (literal : Literal)
  | colon (fields : Entries Value) (key : String)
  /-- after a value in a container -/
  | next (container : Container)
  | string (literal : Literal)
  | number (numeral : Numeral)
  /-- in one of the words that stand for a value -/
  | word (left : List Char) (value : Value)
  | failed (problem : Problem)

/-- The complete values of the stream and the containers that wait for the current value, both
latest first. -/
structure Reader where
  values : List Value
  stack : List Frame
  mode : Mode

/-- At most this many containers may be open at once. -/
def maxDepth : Nat := 127

def isSpace (c : Char) : Bool := c = ' ' || c = '\t' || c = '\n' || c = '\r'

/-- What may follow a number or a word that stands outside all containers. -/
def delimits (c : Char) : Bool :=
  isSpace c || c = '"' || c = '[' || c = ']' || c = '{' || c = '}' || c = ',' || c = ':'

namespace Reader

def start : Reader := ⟨[], [], .between⟩

def fail (r : Reader) (problem : Problem) : Reader := { r with mode := .failed problem }

def hasFailed (r : Reader) : Bool :=
  match r.mode with
  | .failed _ => true
  | _ => false

def settle (r : Reader) (value : Value) : Reader :=
  match r.stack with
  | [] => { r with values := value :: r.values, mode := .between }
  | frame :: rest => { r with stack := rest, mode := .next (frame.place value) }

def openContainer (r : Reader) (mode : Mode) : Reader :=
  if r.stack.length < maxDepth then { r with mode } else r.fail .tooDeep

/-- What is wrong with a character that starts no value. -/
def unexpected (r : Reader) (c : Char) : Problem :=
  match r.stack, c with
  | .array _ :: _, ']' => .trailingComma
  | _, _ => .expectedValue

def begin (r : Reader) (c : Char) : Reader :=
  match c with
  | '[' => r.openContainer .firstItem
  | '{' => r.openContainer .firstKey
  | '"' => { r with mode := .string .opened }
  | 't' => { r with mode := .word ['r', 'u', 'e'] (.boolean true) }
  | 'f' => { r with mode := .word ['a', 'l', 's', 'e'] (.boolean false) }
  | 'n' => { r with mode := .word ['u', 'l', 'l'] .null }
  | c =>
    match Numeral.start? c with
    | some numeral => { r with mode := .number numeral }
    | none => r.fail (r.unexpected c)

def stepNext (r : Reader) (container : Container) (c : Char) : Reader :=
  match container, c with
  | .array items, ',' => { r with stack := .array items :: r.stack, mode := .value }
  | .array items, ']' => r.settle (.array items.reverse)
  | .object fields, ',' => { r with mode := .nextKey fields }
  | .object fields, '}' => r.settle (.object fields)
  | container, c => if isSpace c then r else r.fail container.unexpected

def stepAfter (r : Reader) (value : Value) (c : Char) : Reader :=
  match r.stack with
  | [] =>
    if isSpace c then r.settle value
    else if delimits c then (r.settle value).begin c
    else r.fail .trailingCharacters
  | frame :: rest => stepNext { r with stack := rest, mode := .next (frame.place value) }
      (frame.place value) c

def step (r : Reader) (byte : UInt8) : Reader :=
  let c := Char.ofUInt8 byte
  match r.mode with
  | .between | .value => if isSpace c then r else r.begin c
  | .firstItem =>
    if isSpace c then r
    else if c = ']' then r.settle (.array [])
    else Reader.begin { r with stack := .array [] :: r.stack } c
  | .firstKey =>
    if isSpace c then r
    else if c = '}' then r.settle (.object [])
    else if c = '"' then { r with mode := .key [] .opened }
    else r.fail .keyNotString
  | .nextKey fields =>
    if isSpace c then r
    else if c = '"' then { r with mode := .key fields .opened }
    else r.fail (if c = '}' then .trailingComma else .keyNotString)
  | .key fields literal =>
    match literal.push byte with
    | .more literal => { r with mode := .key fields literal }
    | .closed key => { r with mode := .colon fields key }
    | .failed problem => r.fail problem
  | .colon fields key =>
    if isSpace c then r
    else if c = ':' then { r with stack := .object fields key :: r.stack, mode := .value }
    else r.fail .expectedColon
  | .next container => r.stepNext container c
  | .string literal =>
    match literal.push byte with
    | .more literal => { r with mode := .string literal }
    | .closed s => r.settle (.string s)
    | .failed problem => r.fail problem
  | .number numeral =>
    match numeral.push? c with
    | some next =>
      if next.overflows then r.fail .numberTooLarge else { r with mode := .number next }
    | none =>
      match numeral.endsBefore c, numeral.value? with
      | true, some x => r.stepAfter (.float x) c
      | true, none => r.fail .numberTooLarge
      | false, _ => r.fail .invalidNumber
  | .word [] value => r.stepAfter value c
  | .word (expected :: left) value =>
    if c = expected then { r with mode := .word left value } else r.fail .expectedWord
  | .failed _ => r

/-- Reads bytes up to one that fails, and moves the location on with each of them. -/
def read (r : Reader) (location : Location) : List UInt8 → Reader × Location
  | [] => (r, location)
  | byte :: rest =>
    if r.hasFailed then (r, location) else (r.step byte).read (location.after byte) rest

theorem step_of_hasFailed {r : Reader} (failed : r.hasFailed = true) (byte : UInt8) :
    r.step byte = r := by
  obtain ⟨values, stack, mode⟩ := r
  cases mode with
  | failed problem => rfl
  | _ => cases failed

theorem foldl_of_hasFailed {r : Reader} (failed : r.hasFailed = true) (bytes : List UInt8) :
    bytes.foldl step r = r := by
  induction bytes with
  | nil => rfl
  | cons byte rest ih => rw [List.foldl_cons, step_of_hasFailed failed, ih]

/-- A reader that goes on after some bytes has not failed before them. -/
theorem hasFailed_of_foldl {r : Reader} {bytes : List UInt8}
    (alive : (bytes.foldl step r).hasFailed = false) : r.hasFailed = false := by
  cases failed : r.hasFailed with
  | false => rfl
  | true =>
    rw [foldl_of_hasFailed failed, failed] at alive
    cases alive

/-- Locations have nothing to do with what is read. -/
theorem read_fst (r : Reader) (location : Location) (bytes : List UInt8) :
    (r.read location bytes).1 = bytes.foldl step r := by
  induction bytes generalizing r location with
  | nil => rfl
  | cons byte rest ih =>
    unfold read
    split
    case isTrue failed => exact (foldl_of_hasFailed failed _).symm
    case isFalse => exact ih (r.step byte) (location.after byte)

end Reader

/-! ### The end of a stream -/

/-- A value behind which the stream ends, unless a container is still open. -/
def lastValue (value : Value) : List Frame → Except Problem (List Value)
  | [] => .ok [value]
  | frame :: _ => .error frame.unclosed

/-- The values that the end of the stream completes, at most one, or what is wrong with it. -/
def Mode.ending : Mode → List Frame → Except Problem (List Value)
  | .between, _ => .ok []
  | .word [] last, stack => lastValue last stack
  | .number numeral, stack =>
    match numeral.isComplete, numeral.value? with
    | true, some x => lastValue (.float x) stack
    | true, none => .error .numberTooLarge
    | false, _ => .error .endInValue
  | .value, _ | .nextKey _, _ | .word .., _ => .error .endInValue
  | .firstItem, _ => .error .endInArray
  | .firstKey, _ | .colon .., _ => .error .endInObject
  | .key .., _ | .string _, _ => .error .endInString
  | .next container, _ => .error container.unclosed
  | .failed problem, _ => .error problem

/-- The values of the stream, and why it stops before its end if it does. -/
def Reader.finish (r : Reader) : List Value × Option Problem :=
  match r.mode.ending r.stack with
  | .ok last => ((last ++ r.values).reverse, none)
  | .error problem => (r.values.reverse, some problem)

def decodeAll (bytes : List UInt8) : List Value × Option DecodeError :=
  let (r, location) := Reader.start.read .start bytes
  let (values, problem) := r.finish
  (values, problem.map (⟨·, location⟩))

theorem decodeAll_fst (bytes : List UInt8) :
    (decodeAll bytes).1 = (bytes.foldl Reader.step .start).finish.1 := by
  rw [← Reader.read_fst]
  rfl

theorem decodeAll_eq_iff {bytes : List UInt8} {values : List Value} :
    decodeAll bytes = (values, none) ↔
      (bytes.foldl Reader.step .start).finish = (values, none) := by
  rw [← Reader.read_fst .start .start]
  unfold decodeAll
  dsimp only
  rw [Prod.mk.injEq, Option.map_eq_none_iff, Prod.ext_iff]

/-- The value of a text with nothing around it but blanks. Of an error only its kind is kept. -/
def decode (bytes : List UInt8) : Except Failure Value :=
  match decodeAll bytes with
  | ([], none) => .error .incomplete
  | ([], some error) => .error error.failure
  | ([value], none) => .ok value
  | _ => .error .malformed

end JsonQuery.Json
