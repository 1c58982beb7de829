import JsonQuery.Json.Reader
import JsonQuery.Query.Compile
import JsonQuery.Query.Expression
import JsonQuery.Stream.Writer

/-!
# Queries over streams

A query is evaluated on every value of a stream of JSON, one result a line. The run ends with the
stream or with the first record that cannot be decoded, evaluated or written; what has been
written before stays written.
-/

namespace JsonQuery.Stream

/-- Why a run stops before the end of its input. Records count from one. -/
inductive RunError where
  | compile (error : Query.CompileError)
  | decode (record : Nat) (error : Json.DecodeError)
  | eval (record : Nat) (error : Query.EvalError)
  /-- the output takes no more -/
  | full
  deriving DecidableEq, Repr

def RunError.message [Platform] : RunError → String
  | .compile error => error.message
  | .decode record error =>
    "couldn't decode JSON value #" ++ toString record ++ ": " ++ error.message
  | .eval record error =>
    "couldn't evaluate query for value #" ++ toString record ++ ": " ++ error.message
  | .full => "IO error: " ++ Platform.refusal

/-- The number of records, or what stopped the run, and what has been written. -/
structure Outcome where
  result : Except RunError Nat
  output : ByteArray

def writeLine (w : Writer) (text : String) : Writer × Bool :=
  match w.write text.toUTF8 with
  | (w, true) => w.write "\n".toUTF8
  | (w, false) => (w, false)

variable [Platform]

/-- Goes on after `processed` records with the values that are left and the way they end. -/
def process (e : Query.Expression) (style : Json.Style) (w : Writer) (processed : Nat) :
    List Value → Option Json.DecodeError → Outcome
  | [], some error => ⟨.error (.decode (processed + 1) error), w.output⟩
  | [], none => ⟨if w.flush.2 then .ok processed else .error .full, w.output⟩
  | value :: rest, ending =>
    match e.evaluate value with
    | .error error => ⟨.error (.eval (processed + 1) error), w.output⟩
    | .ok result =>
      match writeLine w (Json.print style result) with
      | (w, true) => process e style w (processed + 1) rest ending
      | (w, false) => ⟨.error .full, w.output⟩

/-- Runs a query over `input`. The output accepts `room` bytes, if it is limited at all. -/
def run (query : String) (style : Json.Style) (room : Option Nat) (input : List UInt8) : Outcome :=
  match Query.compile query with
  | .error error => ⟨.error (.compile error), .empty⟩
  | .ok e =>
    let (values, ending) := Json.decodeAll input
    process e style (.start room) 0 values ending

end JsonQuery.Stream
