import JsonQuery.Proofs.Json.Literals
import JsonQuery.Proofs.Stream.Writer
import JsonQuery.Stream.Run

/-!
# Runs without errors

A run succeeds only on a whole stream of which every value is evaluated, and then its output is the
results, one a line (`ok_of_run`). What else it does depends on nothing but these lines
(`process_of_evaluates`).
-/

namespace JsonQuery.Stream

open Json (Style bytesOf bytesOf_append toList_toUTF8)
open Query (Expression)

/-- Each text on a line of its own. -/
def lines (texts : List String) : List Char := texts.flatMap fun text => text.toList ++ ['\n']

def writeLines (w : Writer) : List String → Writer × Bool
  | [] => (w, true)
  | text :: rest =>
    match writeLine w text with
    | (w, true) => writeLines w rest
    | (w, false) => (w, false)

/-- The end of a run after all its records. -/
def conclude (processed : Nat) : Writer × Bool → Outcome
  | (w, true) => ⟨if w.flush.2 then .ok processed else .error .full, w.output⟩
  | (w, false) => ⟨.error .full, w.output⟩

variable {w w' : Writer} {processed n : Nat}

/-! ### Lines -/

theorem written_of_writeLine {text : String} (h : writeLine w text = (w', true)) :
    w'.written.data.toList = w.written.data.toList ++ bytesOf (text.toList ++ ['\n']) := by
  unfold writeLine at h
  split at h
  case h_1 between eq =>
    have bytes : text.toUTF8.data.toList = bytesOf text.toList := by
      rw [← toList_toUTF8, String.ofList_toList]
    rw [Writer.written_of_write h, Writer.written_of_write eq, ByteArray.toList_data_append,
      ByteArray.toList_data_append, bytes, List.append_assoc, bytesOf_append]
    rfl
  case h_2 => cases h

theorem written_of_writeLines {texts : List String} (h : writeLines w texts = (w', true)) :
    w'.written.data.toList = w.written.data.toList ++ bytesOf (lines texts) := by
  induction texts generalizing w with
  | nil =>
    cases h
    exact (List.append_nil _).symm
  | cons text rest ih =>
    rw [writeLines] at h
    split at h
    case h_1 between eq =>
      rw [ih h, written_of_writeLine eq, List.append_assoc, ← bytesOf_append]
      rfl
    case h_2 => cases h

theorem written_of_conclude {x : Writer × Bool} (ok : (conclude processed x).result = .ok n) :
    n = processed ∧ x.2 = true ∧ (conclude processed x).output = x.1.written := by
  obtain ⟨w, accepted⟩ := x
  cases accepted with
  | false => cases ok
  | true =>
    unfold conclude at ok
    dsimp only at ok
    split at ok
    case isTrue flushed =>
      cases ok
      exact ⟨rfl, rfl, Writer.output_of_flush flushed⟩
    case isFalse => cases ok

/-! ### Records -/

variable [Platform]

/-- The results of the expression on the values, one by one. -/
def Evaluates (e : Expression) (values results : List Value) : Prop :=
  List.Forall₂ (fun value result => e.evaluate value = .ok result) values results

variable {e : Expression} {style : Style} {values results : List Value}
  {ending : Option Json.DecodeError}

theorem process_of_evaluates (style : Style) (h : Evaluates e values results) (w : Writer)
    (processed : Nat) :
    process e style w processed values none =
      conclude (processed + results.length) (writeLines w (results.map (Json.print style))) := by
  induction h generalizing w processed with
  | nil => rfl
  | @cons value result values results here there ih =>
    rw [process, here, List.map_cons, writeLines]
    dsimp only
    obtain ⟨next, accepted⟩ := writeLine w (Json.print style result)
    cases accepted with
    | true =>
      dsimp only
      rw [ih, List.length_cons, Nat.add_assoc, Nat.add_comm 1]
    | false => rfl

theorem evaluates_of_process (ok : (process e style w processed values ending).result = .ok n) :
    ending = none ∧ ∃ results, Evaluates e values results := by
  induction values generalizing w processed with
  | nil =>
    cases ending with
    | none => exact ⟨rfl, [], .nil⟩
    | some failure => cases ok
  | cons value rest ih =>
    rw [process] at ok
    split at ok
    case h_1 => cases ok
    case h_2 result here =>
      split at ok
      case h_1 next eq =>
        obtain ⟨whole, results, there⟩ := ih ok
        exact ⟨whole, result :: results, .cons here there⟩
      case h_2 => cases ok

theorem ok_of_run {query : String} {room : Option Nat} {input : List UInt8}
    (ok : (run query style room input).result = .ok n) :
    ∃ e results, Query.compile query = .ok e ∧ (Json.decodeAll input).2 = none ∧
      Evaluates e (Json.decodeAll input).1 results ∧ n = results.length ∧
      run query style room input =
        conclude results.length (writeLines (.start room) (results.map (Json.print style))) ∧
      (run query style room input).output.data.toList =
        bytesOf (lines (results.map (Json.print style))) := by
  unfold run at ok ⊢
  split at ok
  case h_1 => cases ok
  case h_2 e compiled =>
    dsimp only at ok ⊢
    obtain ⟨whole, results, evaluated⟩ := evaluates_of_process ok
    have outcome := process_of_evaluates style evaluated (.start room) 0
    rw [Nat.zero_add] at outcome
    rw [whole, outcome] at ok ⊢
    obtain ⟨count, accepted, output⟩ := written_of_conclude ok
    have written := written_of_writeLines (Prod.ext rfl accepted)
    refine ⟨e, results, compiled, rfl, evaluated, count, rfl, ?_⟩
    rw [output, written]
    rfl

end JsonQuery.Stream
