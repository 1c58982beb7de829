import JsonQuery.Json.Printer
import JsonQuery.Query.Token.Lexer

/-!
# Syntax trees

A query is a literal or a function call. A list without a function name has become a call of
`elem` here. `Tokens.expression` reads one expression and `Tokens.query` one that nothing follows.
Both also say what is left to read, so that reading can go on. Every token is read together with the
one after it: an error in the latter is reported before anything is made of the former.
-/

namespace JsonQuery.Query

inductive Node where
  | literal (l : Literal)
  | call (name : String) (args : List Node)
  deriving Repr

namespace Node

/-- The function that a list without a name calls. -/
def implicitFunction : String := "elem"

mutual

/-- The text of a query: literals as JSON, arguments after one blank each. -/
def write : Node → List Char
  | literal l => Json.compact.write 0 l.value
  | call name args => '(' :: (name.toList ++ (writeArgs args ++ [')']))

def writeArgs : List Node → List Char
  | [] => []
  | arg :: rest => ' ' :: (write arg ++ writeArgs rest)

end

def text (node : Node) : String := String.ofList node.write

end Node

/-! ### From tokens to syntax trees -/

inductive Wanted where
  | expression
  | endOfInput
  deriving DecidableEq, Repr

def Wanted.message : Wanted → String
  | .expression => "an expression"
  | .endOfInput => "end of input"

/-- At most this many lists may be open at once. -/
def maxNesting : Nat := 256

inductive ParseError where
  | lex (error : LexError)
  | unexpectedToken (wanted : Wanted) (found : Token) (position : Position)
  | emptyList (position : Position)
  | unclosedList (position : Position)
  | bareIdentifier (name : String) (position : Position)
  | headlessList (length : Nat) (position : Position)
  | tooDeep (position : Position)
  deriving DecidableEq, Repr

def ParseError.message : ParseError → String
  | .lex error => error.message
  | .unexpectedToken wanted found position =>
    "expected " ++ wanted.message ++ ", got " ++ found.message ++ " at " ++ position.message
  | .emptyList position => "empty list at " ++ position.message
  | .unclosedList position => "unclosed list starting at " ++ position.message
  | .bareIdentifier name position =>
    "identifier '" ++ name ++ "' at " ++ position.message ++
      " can only appear at the head of a list (use \"" ++ name ++ "\" for a field name)"
  | .headlessList length position =>
    "list at " ++ position.message ++ " has " ++ toString length ++
      " elements but no function name; only one or two are allowed"
  | .tooDeep position =>
    "lists nested deeper than " ++ toString maxNesting ++ " levels at " ++ position.message

/-- A list that is not closed yet. Its elements come latest first. -/
structure OpenList where
  start : Position
  head : Option String
  elements : List Node

namespace OpenList

def push (l : OpenList) (node : Node) : OpenList := { l with elements := node :: l.elements }

/-- The call that the list stands for. Without a name it has one or two elements. -/
def close (l : OpenList) : Except ParseError Node :=
  match l.head, l.elements.length with
  | some name, _ => .ok (.call name l.elements.reverse)
  | none, 0 => .error (.emptyList l.start)
  | none, 1 | none, 2 => .ok (.call Node.implicitFunction l.elements.reverse)
  | none, length => .error (.headlessList length l.start)

end OpenList

namespace Tokens

/-- Reads on inside the open lists, innermost first, until an expression is complete. An error
leaves the input at its end, but for an empty or headless list, which has been read, and for a
token that an unreadable one follows. -/
def read : List OpenList → Tokens → Except ParseError Node × Tokens
  | _, .failed error => (.error (.lex error), .failed error)
  | [], .finished position =>
    (.error (.unexpectedToken .expression .eof position), .finished position)
  | l :: _, .finished position => (.error (.unclosedList l.start), .finished position)
  | stack, .cons (.literal value) position rest =>
    match rest.failure?, stack with
    | some error, _ => (.error (.lex error), .finished position)
    | none, [] => (.ok (.literal value), rest)
    | none, l :: outer => read (l.push (.literal value) :: outer) rest
  | stack, .cons .lparen position rest =>
    if maxNesting ≤ stack.length then (.error (.tooDeep position), .finished position)
    else
      match rest.failure? with
      | some error => (.error (.lex error), .finished position)
      | none => read (⟨position, none, []⟩ :: stack) rest
  | ⟨start, none, []⟩ :: outer, .cons (.identifier name) position rest =>
    match rest.failure? with
    | some error => (.error (.lex error), .cons (.identifier name) position rest)
    | none => read (⟨start, some name, []⟩ :: outer) rest
  | _, .cons (.identifier name) position _ =>
    (.error (.bareIdentifier name position), .finished position)
  | l :: outer, .cons .rparen position rest =>
    match rest.failure?, l.close, outer with
    | some error, _, _ => (.error (.lex error), .cons .rparen position rest)
    | none, .error error, _ => (.error error, rest)
    | none, .ok node, [] => (.ok node, rest)
    | none, .ok node, l :: outer => read (l.push node :: outer) rest
  | _, .cons token position _ =>
    (.error (.unexpectedToken .expression token position), .finished position)

def expression (tokens : Tokens) : Except ParseError Node × Tokens := tokens.read []

/-- One expression with nothing after it. -/
def query (tokens : Tokens) : Except ParseError Node × Tokens :=
  match tokens.expression with
  | (.ok _, .cons token position _) =>
    (.error (.unexpectedToken .endOfInput token position), .finished position)
  | (.ok _, .failed error) => (.error (.lex error), .failed error)
  | result => result

end Tokens

def parse (query : String) : Except ParseError Node := (Tokens.ofString query).query.1

end JsonQuery.Query
