import JsonQuery.Query.Builtin
import JsonQuery.Query.Node

/-!
# Compiling queries

A query is read as a syntax tree, which is bound in a registry: the table that gives meaning to
function names. A name is looked up before the arguments of its call are bound, from left to right,
and the constructor runs last.
-/

namespace JsonQuery.Query

/-- What a function name stands for: a way to make an expression of bound arguments. -/
abbrev Constructor := List Expression → Except BindError Expression

abbrev Registry := Entries Constructor

namespace Registry

def empty : Registry := []

def register (registry : Registry) (name : String) (build : Constructor) : Registry :=
  Entries.insert name build registry

def get? (registry : Registry) (name : String) : Option Constructor :=
  Entries.find? name registry

def names (registry : Registry) : List String := Entries.keys registry

/-- All built-in functions under their own names. -/
def standard : Registry :=
  Builtin.all.foldl (fun registry builtin => register registry builtin.name builtin.build) empty

mutual

def bind (registry : Registry) : Node → Except BindError Expression
  | .literal l => .ok (.constant l.value)
  | .call name args =>
    match get? registry name with
    | none => .error (.unknownFunction name)
    | some build => do build (← bindAll registry args)

def bindAll (registry : Registry) : List Node → Except BindError (List Expression)
  | [] => .ok []
  | arg :: rest => do
    let e ← bind registry arg
    return e :: (← bindAll registry rest)

end

def describe (registry : Registry) : String :=
  "Registry \x7b functions: [" ++ ", ".intercalate ((names registry).map Text.quoted) ++ "] \x7d"

end Registry

inductive CompileError where
  | lex (error : LexError)
  | parse (error : ParseError)
  | bind (error : BindError)
  deriving DecidableEq, Repr

def CompileError.message : CompileError → String
  | .lex error => "lex error: " ++ error.message
  | .parse error => "parse error: " ++ error.message
  | .bind error => "bind error: " ++ error.message

/-- Errors in tokens are told apart from errors in their order. -/
def CompileError.ofParseError : ParseError → CompileError
  | .lex error => .lex error
  | error => .parse error

def compileWith (registry : Registry) (query : String) : Except CompileError Expression :=
  match Query.parse query with
  | .error error => .error (.ofParseError error)
  | .ok node => (registry.bind node).mapError .bind

/-- Compiles with the built-in functions. -/
def compile (query : String) : Except CompileError Expression :=
  compileWith .standard query

end JsonQuery.Query
