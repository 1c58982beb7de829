import JsonQuery.Proofs.Json.Concatenation
import JsonQuery.Proofs.Stream.Delivery

/-!
# Record by record

The output of a run is the results of the records in front of the first that fails, one a line, and
the failure is that of this record or of the stream behind all records. So the records of one stream
say nothing about those of another that follows it, except for their number and for the place where
an error of decoding is found in the stream (`run_records`).
-/

namespace JsonQuery.Stream

open Json (Style Location bytesOf decodeAll decodeAll_append)
open Query (Expression)

/-- The same end for a run with `count` records before it. -/
def later (count : Nat) : Except RunError Nat → Except RunError Nat
  | .ok processed => .ok (count + processed)
  | .error (.decode record error) => .error (.decode (count + record) error)
  | .error (.eval record error) => .error (.eval (count + record) error)
  | .error error => .error error

/-- The same end for a run over the part of a stream that begins at `p`. -/
def behind (p : Location) : Except RunError Nat → Except RunError Nat
  | .error (.decode record error) => .error (.decode record (error.shift p))
  | last => last

theorem encoded_append (a b : List String) : encoded (a ++ b) = encoded a ++ encoded b := by
  rw [encoded, lines, List.flatMap_append, Json.bytesOf_append, List.toByteArray_append]
  rfl

section Runs

variable [Platform] {e : Expression}

/-- Neither the records in front nor the place where a stream begins has an influence on the results
in it. -/
theorem records_moved (e : Expression) (count : Nat) (p : Location) (processed : Nat)
    (values : List Value) (ending : Option Json.DecodeError) :
    records e (count + processed) values (ending.map (.shift p)) =
      ((records e processed values ending).1,
        later count (behind p (records e processed values ending).2)) := by
  induction values generalizing processed with
  | nil => cases ending <;> rfl
  | cons value rest ih =>
    rw [records, records]
    cases e.evaluate value with
    | error error => rfl
    | ok result =>
      dsimp only
      rw [Nat.add_assoc, ih]

theorem records_append {before results : List Value} (h : Evaluates e before results)
    (processed : Nat) (after : List Value) (ending : Option Json.DecodeError) :
    records e processed (before ++ after) ending =
      (results ++ (records e (processed + before.length) after ending).1,
        (records e (processed + before.length) after ending).2) := by
  induction h generalizing processed with
  | nil => rfl
  | @cons value result values results here there ih =>
    rw [List.cons_append, records, here]
    dsimp only
    rw [ih, List.length_cons, Nat.add_assoc, Nat.add_comm 1]
    rfl

/-- Values are all evaluated, or there is a first that is not. -/
theorem evaluates_or_fails (e : Expression) (values : List Value) :
    (∃ results, Evaluates e values results) ∨
      ∃ before value after results error, values = before ++ value :: after ∧
        Evaluates e before results ∧ e.evaluate value = .error error := by
  induction values with
  | nil => exact .inl ⟨[], .nil⟩
  | cons value rest ih =>
    cases here : e.evaluate value with
    | error error => exact .inr ⟨[], value, rest, [], error, rfl, .nil, here⟩
    | ok result =>
      rcases ih with ⟨results, all⟩ | ⟨before, failing, after, results, error, rfl, all, failed⟩
      · exact .inl ⟨result :: results, .cons here all⟩
      · exact .inr ⟨value :: before, failing, after, result :: results, error, rfl,
          .cons here all, failed⟩

variable {query : String} {style : Style}

theorem run_of_evaluates (compiled : Query.compile query = .ok e) {input : List UInt8}
    {values results : List Value} {ending : Option Json.DecodeError}
    (decoded : decodeAll input = (values, ending)) (all : Evaluates e values results) :
    run query style none input =
      ⟨closing values.length ending, encoded (results.map (Json.print style))⟩ := by
  have found := records_append all 0 [] ending
  rw [List.append_nil, Nat.zero_add] at found
  rw [run_unlimited compiled, decoded]
  dsimp only
  rw [found, records, List.append_nil]

theorem run_of_failing (compiled : Query.compile query = .ok e) {input : List UInt8}
    {before after results : List Value} {value : Value} {ending : Option Json.DecodeError}
    {error : Query.EvalError} (decoded : decodeAll input = (before ++ value :: after, ending))
    (all : Evaluates e before results) (failed : e.evaluate value = .error error) :
    run query style none input =
      ⟨.error (.eval (before.length + 1) error), encoded (results.map (Json.print style))⟩ := by
  have found := records_append all 0 (value :: after) ending
  rw [Nat.zero_add, records, failed, List.append_nil] at found
  rw [run_unlimited compiled, decoded]
  dsimp only
  rw [found]

/-- A stream that succeeds and another one after it, with a blank between them: the second is run as
if it stood alone, but what is wrong with it is found further on. -/
theorem run_append {a : List UInt8} {n : Nat} {output : ByteArray}
    (ok : run query style none a = ⟨.ok n, output⟩) (b : List UInt8) :
    run query style none (a ++ 0x20 :: b) =
      ⟨later n (behind (Location.start.advance (a ++ [0x20])) (run query style none b).result),
        output ++ (run query style none b).output⟩ := by
  obtain ⟨e, results, compiled, whole, all, rfl, -, -⟩ := ok_of_run (congrArg Outcome.result ok)
  have decoded : decodeAll a = ((decodeAll a).1, none) := Prod.ext rfl whole
  have first : run query style none a = _ := run_of_evaluates compiled decoded all
  rw [ok] at first
  obtain rfl : output = encoded (results.map (Json.print style)) := congrArg Outcome.output first
  have length : results.length = (decodeAll a).1.length := all.length_eq.symm
  have found := records_append all 0 (decodeAll b).1
    ((decodeAll b).2.map (.shift (Location.start.advance (a ++ [0x20]))))
  rw [Nat.zero_add, ← length, ← Nat.add_zero results.length, records_moved] at found
  rw [run_unlimited compiled, run_unlimited compiled, decodeAll_append decoded b]
  dsimp only
  rw [found, List.map_append, encoded_append]

/-- A run writes the results of the records in front of the first that fails and ends with its
failure, or else as the stream ends. A stream that succeeds can be put in front of another one,
whose records are then counted, and its lines and columns too, from the beginning of the first. A
query that is not compiled reads and writes nothing. -/
theorem run_records (query : String) (style : Style) :
    (∀ a b n output, run query style none a = ⟨.ok n, output⟩ →
      run query style none (a ++ 0x20 :: b) =
        ⟨later n (behind (Location.start.advance (a ++ [0x20])) (run query style none b).result),
          output ++ (run query style none b).output⟩) ∧
    (∀ e input values ending, Query.compile query = .ok e → decodeAll input = (values, ending) →
      (∃ results, Evaluates e values results ∧
        run query style none input =
          ⟨closing values.length ending, encoded (results.map (Json.print style))⟩) ∨
      ∃ before value after results error, values = before ++ value :: after ∧
        Evaluates e before results ∧ e.evaluate value = .error error ∧
        run query style none input =
          ⟨.error (.eval (before.length + 1) error),
            encoded (results.map (Json.print style))⟩) ∧
    ∀ error, Query.compile query = .error error → ∀ limit input,
      run query style limit input = ⟨.error (.compile error), .empty⟩ := by
  refine ⟨fun a b n output ok => run_append ok b, fun e input values ending compiled decoded => ?_,
    fun error failed limit input => run_of_compile_error failed style limit input⟩
  rcases evaluates_or_fails e values with
    ⟨results, all⟩ | ⟨before, value, after, results, error, rfl, all, failed⟩
  · exact .inl ⟨results, all, run_of_evaluates compiled decoded all⟩
  · exact .inr ⟨before, value, after, results, error, rfl, all, failed,
      run_of_failing compiled decoded all failed⟩

end Runs

theorem run_records_fourth :
    run "(keys)" Json.compact none (bytesOf "[] []".toList ++ 0x20 :: bytesOf "[] null".toList) =
      ⟨.error (.eval 4 (.keysInput .null)), encoded ["[]", "[]", "[]"]⟩ := by
  have compiled : Query.compile "(keys)" = .ok .keys := by cbv
  have text : Json.print Json.compact (.array []) = "[]" := by cbv
  have empty : Evaluates .keys [.array []] [.array []] := .cons rfl .nil
  have decoded : decodeAll (bytesOf "[] []".toList) = ([.array [], .array []], none) := rfl
  have decoded' : decodeAll (bytesOf "[] null".toList) = ([.array []] ++ [.null], none) := rfl
  have failed : Expression.keys.evaluate .null = .error (.keysInput .null) := rfl
  have first : run "(keys)" Json.compact none (bytesOf "[] []".toList) = _ :=
    run_of_evaluates compiled decoded (.cons rfl empty)
  have second : run "(keys)" Json.compact none (bytesOf "[] null".toList) = _ :=
    run_of_failing compiled decoded' empty failed
  rw [(run_records "(keys)" Json.compact).1 _ _ _ _ first, second]
  simp only [List.map, text, ← encoded_append]
  rfl

/-- More than the number of the record differs: the `x` of `null x` is the sixth byte. -/
theorem not_run_append_later :
    ¬ ∀ query style a b n output, run query style none a = ⟨.ok n, output⟩ →
      run query style none (a ++ 0x20 :: b) =
        ⟨later n (run query style none b).result, output ++ (run query style none b).output⟩ := by
  intro alone
  have first : run "(id)" Json.compact none (bytesOf "null".toList) =
      ⟨.ok 1, encoded ["null"]⟩ := by cbv
  have second : (run "(id)" Json.compact none (bytesOf "x".toList)).result =
      .error (.decode 1 ⟨.expectedValue, ⟨0, 1⟩⟩) := by cbv
  have both : (run "(id)" Json.compact none
      (bytesOf "null".toList ++ 0x20 :: bytesOf "x".toList)).result =
      .error (.decode 2 ⟨.expectedValue, ⟨0, 6⟩⟩) := by cbv
  have same := congrArg Outcome.result (alone "(id)" Json.compact _ (bytesOf "x".toList) 1 _ first)
  rw [both, second] at same
  exact absurd same (by decide)

end JsonQuery.Stream
