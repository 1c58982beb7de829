import JsonQuery.Proofs.Stream.Limit
import JsonQuery.Proofs.Stream.Run

/-!
# What a run delivers

The results of a run and the way it ends do not depend on what it writes to (`records`). An output
without a limit gets all of them, and one with a limit their first bytes (`run_limited`): the run
then fails, unless it fails with an error of its own before the excess leaves the buffer.
-/

namespace JsonQuery.Stream

open Json (Style bytesOf)
open Query (Expression)

/-- How a run ends that has got through `count` values. -/
def closing (count : Nat) : Option Json.DecodeError → Except RunError Nat
  | none => .ok count
  | some error => .error (.decode (count + 1) error)

/-- The end of a run that has written its lines as far as it could. -/
def deliver : Except RunError Nat → Writer × Bool → Outcome
  | .ok count, x => conclude count x
  | .error error, (w, true) => ⟨.error error, w.output⟩
  | .error _, (w, false) => ⟨.error .full, w.output⟩

theorem deliver_false (last : Except RunError Nat) (w : Writer) :
    deliver last (w, false) = ⟨.error .full, w.output⟩ := by
  cases last <;> rfl

/-! ### Bytes -/

/-- The texts as an output gets them. -/
def encoded (texts : List String) : ByteArray := (bytesOf (lines texts)).toByteArray

theorem encoded_cons (text : String) (rest : List String) :
    encoded (text :: rest) = text.toUTF8 ++ "\n".toUTF8 ++ encoded rest := by
  have bytes : (bytesOf text.toList).toByteArray = text.toUTF8 := String.utf8Encode_toList
  rw [encoded, lines, List.flatMap_cons, Json.bytesOf_append, List.toByteArray_append,
    Json.bytesOf_append, List.toByteArray_append, bytes]
  rfl

section Limit

variable {limit : Option Nat}

theorem takes_writeLine {w : Writer} (h : w.sink.Within limit) (text : String) :
    Takes limit (w.written ++ (text.toUTF8 ++ "\n".toUTF8)) (writeLine w text) := by
  have first := Writer.takes_write h text.toUTF8
  rw [← ByteArray.append_assoc]
  unfold writeLine
  split
  case h_1 next eq =>
    rw [eq] at first
    obtain ⟨within, written⟩ := first
    rw [← written]
    exact Writer.takes_write within _
  case h_2 next eq =>
    rw [eq] at first
    exact first.append _

theorem takes_writeLines {w : Writer} (h : w.sink.Within limit) (texts : List String) :
    Takes limit (w.written ++ encoded texts) (writeLines w texts) := by
  induction texts generalizing w with
  | nil => exact ⟨h, ByteArray.append_empty.symm⟩
  | cons text rest ih =>
    have first := takes_writeLine h text
    rw [encoded_cons, ← ByteArray.append_assoc, writeLines]
    split
    case h_1 next eq =>
      rw [eq] at first
      obtain ⟨within, written⟩ := first
      rw [← written]
      exact ih within
    case h_2 next eq =>
      rw [eq] at first
      exact first.append _

/-- What is written does not depend on how the run ends, and a run that is cut off does not end
well. -/
theorem deliver_of_takes {all : ByteArray} {x : Writer × Bool} (h : Takes limit all x)
    (last : Except RunError Nat) :
    (deliver last x).output = clip limit all ∧
      (Fits limit all.size → (deliver last x).result = last) ∧
      (¬Fits limit all.size → (deliver last x).result = .error .full ∨
        ∃ error, last = .error error ∧ (deliver last x).result = .error error) := by
  obtain ⟨w, accepted⟩ := x
  cases accepted with
  | false =>
    obtain ⟨output, full⟩ := h
    rw [deliver_false]
    exact ⟨output, fun fits => absurd fits full, fun _ => .inl rfl⟩
  | true =>
    obtain ⟨within, rfl⟩ := h
    have output := Writer.output_eq_clip within
    cases last with
    | error error => exact ⟨output, fun _ => rfl, fun _ => .inr ⟨error, rfl, rfl⟩⟩
    | ok count =>
      have flushed := Writer.flush_iff within
      refine ⟨output, fun fits => ?_, fun full => .inl ?_⟩
      · exact if_pos (flushed.mpr fits)
      · exact if_neg fun done => full (flushed.mp done)

/-- A run succeeds as it would without a limit, if everything is within the limit. -/
theorem deliver_ok_iff {all : ByteArray} {x : Writer × Bool} (h : Takes limit all x)
    {last : Except RunError Nat} {count : Nat} :
    (deliver last x).result = .ok count ↔ last = .ok count ∧ Fits limit all.size := by
  obtain ⟨-, whole, cut⟩ := deliver_of_takes h last
  constructor
  · intro ok
    by_cases fits : Fits limit all.size
    · exact ⟨(whole fits).symm.trans ok, fits⟩
    · rcases cut fits with full | ⟨error, -, failed⟩
      · cases ok.symm.trans full
      · cases ok.symm.trans failed
  · rintro ⟨rfl, fits⟩
    exact whole fits

end Limit

/-! ### Runs -/

theorem within_start (limit : Option Nat) : (Writer.start limit).sink.Within limit := by
  cases limit with
  | none => exact ⟨rfl, nofun⟩
  | some n => exact ⟨rfl, fun _ _ => Nat.zero_le _⟩

theorem takes_run (limit : Option Nat) (texts : List String) :
    Takes limit (encoded texts) (writeLines (.start limit) texts) := by
  have taken := takes_writeLines (within_start limit) texts
  rwa [show (Writer.start limit).written = .empty from rfl, ByteArray.empty_append] at taken

section Runs

variable [Platform]

/-- The results of the values up to the first that fails, and how the run ends. -/
def records (e : Expression) (processed : Nat) :
    List Value → Option Json.DecodeError → List Value × Except RunError Nat
  | [], ending => ([], closing processed ending)
  | value :: rest, ending =>
    match e.evaluate value with
    | .error error => ([], .error (.eval (processed + 1) error))
    | .ok result =>
      let (results, last) := records e (processed + 1) rest ending
      (result :: results, last)

theorem process_eq_deliver (e : Expression) (style : Style) (w : Writer) (processed : Nat)
    (values : List Value) (ending : Option Json.DecodeError) :
    process e style w processed values ending =
      deliver (records e processed values ending).2
        (writeLines w ((records e processed values ending).1.map (Json.print style))) := by
  induction values generalizing w processed with
  | nil => cases ending <;> rfl
  | cons value rest ih =>
    rw [process, records]
    cases e.evaluate value with
    | error error => rfl
    | ok result =>
      dsimp only
      rw [List.map_cons, writeLines]
      obtain ⟨next, accepted⟩ := writeLine w (Json.print style result)
      cases accepted with
      | true => exact ih next (processed + 1)
      | false => exact (deliver_false _ next).symm

variable {query : String} {e : Expression}

theorem run_eq_deliver (compiled : Query.compile query = .ok e) (style : Style)
    (limit : Option Nat) (input : List UInt8) :
    run query style limit input =
      deliver (records e 0 (Json.decodeAll input).1 (Json.decodeAll input).2).2
        (writeLines (.start limit)
          ((records e 0 (Json.decodeAll input).1 (Json.decodeAll input).2).1.map
            (Json.print style))) := by
  rw [run, compiled]
  exact process_eq_deliver e style (.start limit) 0 _ _

/-- Without a limit everything is written. -/
theorem run_unlimited (compiled : Query.compile query = .ok e) (style : Style)
    (input : List UInt8) :
    run query style none input =
      ⟨(records e 0 (Json.decodeAll input).1 (Json.decodeAll input).2).2,
        encoded ((records e 0 (Json.decodeAll input).1 (Json.decodeAll input).2).1.map
          (Json.print style))⟩ := by
  rw [run_eq_deliver compiled]
  obtain ⟨output, result, -⟩ := deliver_of_takes (takes_run none _)
    (records e 0 (Json.decodeAll input).1 (Json.decodeAll input).2).2
  have fits {size : Nat} : Fits none size := nofun
  have same (outcome : Outcome) : outcome = ⟨outcome.result, outcome.output⟩ := rfl
  rw [same (deliver _ _), output, result fits]
  rfl

theorem run_of_compile_error {error : Query.CompileError}
    (failed : Query.compile query = .error error) (style : Style) (limit : Option Nat)
    (input : List UInt8) :
    run query style limit input = ⟨.error (.compile error), .empty⟩ := by
  rw [run, failed]

/-- An output with a limit accepts the first bytes of what is written without one, as many as it
can. The run succeeds if and only if that is everything and the run succeeds without a limit. A run
whose output is cut off fails for want of room or with the error that it has anyway. -/
theorem run_limited (query : String) (style : Style) (limit : Nat) (input : List UInt8) :
    let free := run query style none input
    let limited := run query style (some limit) input
    limited.output = free.output.extract 0 (min limit free.output.size) ∧
      (∀ count, limited.result = .ok count ↔
        free.result = .ok count ∧ free.output.size ≤ limit) ∧
      (free.output.size ≤ limit → limited.result = free.result) ∧
      (limit < free.output.size → limited.result = .error .full ∨
        ∃ error, free.result = .error error ∧ limited.result = .error error) := by
  dsimp only
  cases compiled : Query.compile query with
  | error error =>
    rw [run_of_compile_error compiled, run_of_compile_error compiled]
    refine ⟨?_, fun count => ⟨nofun, fun h => nomatch h.1⟩, fun _ => rfl,
      fun _ => .inr ⟨_, rfl, rfl⟩⟩
    show ByteArray.empty = ByteArray.empty.extract 0 (min limit 0)
    rw [Nat.min_zero]
    rfl
  | ok e =>
    rw [run_unlimited compiled, run_eq_deliver compiled]
    generalize records e 0 (Json.decodeAll input).1 (Json.decodeAll input).2 = found
    obtain ⟨results, last⟩ := found
    have taken := takes_run (some limit) (results.map (Json.print style))
    obtain ⟨output, whole, cut⟩ := deliver_of_takes taken last
    rw [fits_some] at whole cut
    refine ⟨by rw [output, clip_some], fun count => ?_, whole, fun excess => ?_⟩
    · rw [deliver_ok_iff taken, fits_some]
    · exact cut (Nat.not_le.mpr excess)

end Runs

theorem run_limited_four :
    (run "(keys)" Json.compact (some 4) (bytesOf "[] []".toList)).result = .error .full ∧
      (run "(keys)" Json.compact (some 4) (bytesOf "[] []".toList)).output =
        (encoded ["[]", "[]"]).extract 0 4 := by
  have compiled : Query.compile "(keys)" = .ok .keys := by cbv
  have text : Json.print Json.compact (.array []) = "[]" := by cbv
  have free : run "(keys)" Json.compact none (bytesOf "[] []".toList) =
      ⟨.ok 2, encoded ["[]", "[]"]⟩ := by
    rw [run_unlimited compiled,
      show Json.decodeAll (bytesOf "[] []".toList) = ([.array [], .array []], none) from rfl]
    show Outcome.mk (.ok 2) (encoded [Json.print _ (.array []), Json.print _ (.array [])]) = _
    rw [text]
  obtain ⟨output, -, -, cut⟩ := run_limited "(keys)" Json.compact 4 (bytesOf "[] []".toList)
  rw [free] at output cut
  refine ⟨?_, output⟩
  rcases cut (by decide) with full | ⟨error, impossible, -⟩
  · exact full
  · cases impossible

end JsonQuery.Stream
