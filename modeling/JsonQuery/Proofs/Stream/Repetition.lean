import JsonQuery.Proofs.Json.Decoding
import JsonQuery.Proofs.Json.Stability
import JsonQuery.Proofs.Query.Expression.Preservation
import JsonQuery.Proofs.Stream.Run

/-!
# Running over one's own output

The output of a run is a stream of JSON values again. It is copied unchanged, record by record, if
and only if every result is read back as something with the same text (`run_identity_output`):
strings, keys, layout and the order of fields always are, numbers and deep containers need not be.
-/

namespace JsonQuery.Stream

open Json (Style Repeats decoded bytesOf decodeAll decodeAll_eq_iff)
open Json.Reader (Settles Ends)

section Lines

variable {style : Style}

theorem lines_cons (style : Style) (v : Value) (rest : List Value) :
    lines ((v :: rest).map (Json.print style)) =
      style.write 0 v ++ '\n' :: lines (rest.map (Json.print style)) := by
  rw [List.map_cons, lines, List.flatMap_cons, Json.print, String.toList_ofList, List.append_assoc]
  rfl

/-- A reader between the values of a stream. -/
def between (values : List Value) : Json.Reader := ⟨values, [], .between⟩

theorem feed_line {text : List Char} {v : Value} (h : Settles text v Json.maxDepth)
    (values : List Value) (more : List Char) :
    (between values).feed (text ++ '\n' :: more) = (between (v :: values)).feed more := by
  have room : (between values).stack.length + Json.maxDepth ≤ Json.maxDepth := Nat.le_refl _
  rw [Json.Reader.feed_append, Json.Reader.feed_opens h.opens (.inl rfl),
    (h.take room).feed (.inr (.inr (.inr rfl))), Json.Reader.feed_cons (by decide)]
  rfl

theorem feed_lines {vs : List Value}
    (h : ∀ v ∈ vs, Settles (style.write 0 v) (decoded v) Json.maxDepth) (values : List Value) :
    (between values).feed (lines (vs.map (Json.print style))) =
      between ((vs.map decoded).reverse ++ values) := by
  induction vs generalizing values with
  | nil => rfl
  | cons v rest ih =>
    obtain ⟨here, there⟩ := List.forall_mem_cons.mp h
    rw [lines_cons, feed_line here, ih there, List.map_cons, List.reverse_cons, List.append_assoc]
    rfl

theorem decodeAll_lines {vs : List Value}
    (h : ∀ v ∈ vs, Settles (style.write 0 v) (decoded v) Json.maxDepth) :
    decodeAll (bytesOf (lines (vs.map (Json.print style)))) = (vs.map decoded, none) := by
  apply decodeAll_eq_iff.mpr
  show ((between []).feed (lines (vs.map (Json.print style)))).finish = _
  rw [feed_lines h, List.append_nil]
  show ((vs.map decoded).reverse.reverse, none) = _
  rw [List.reverse_reverse]

theorem settles_of_alive (plain : style.color = false) {vs : List Value}
    (distinct : ∀ v ∈ vs, v.Distinct) {values : List Value}
    (alive : ((between values).feed (lines (vs.map (Json.print style)))).Alive) :
    ∀ v ∈ vs, v.nesting ≤ Json.maxDepth ∧ Settles (style.write 0 v) (decoded v) v.nesting := by
  induction vs generalizing values with
  | nil => exact nofun
  | cons v rest ih =>
    obtain ⟨here, there⟩ := List.forall_mem_cons.mp distinct
    have demands := Json.demands_write plain 0 here
    rw [lines_cons] at alive
    have first := alive
    rw [Json.Reader.feed_append, Json.Reader.feed_opens demands.1 (.inl rfl)] at first
    obtain ⟨room, settles, -⟩ := demands.meet (Nat.zero_le _)
      ⟨'\n', _, rfl, .inr (.inr (.inr rfl))⟩ first
    have shallow : v.nesting ≤ Json.maxDepth := by
      have empty : (between values).stack.length = 0 := rfl
      omega
    rw [feed_line (settles.mono shallow)] at alive
    exact List.forall_mem_cons.mpr ⟨⟨shallow, settles⟩, ih there alive⟩

theorem eq_of_lines (plain : style.color = false) {vs : List Value}
    (same : lines ((vs.map decoded).map (Json.print style)) = lines (vs.map (Json.print style))) :
    ∀ v ∈ vs, style.write 0 (decoded v) = style.write 0 v := by
  induction vs with
  | nil => exact nofun
  | cons v rest ih =>
    rw [List.map_cons, lines_cons, lines_cons] at same
    have stops (more : List Char) : Json.Stops ('\n' :: more) :=
      fun c first => Option.some.inj first ▸ .inr (.inr (.inr rfl))
    have here := Json.aligned_decoded plain 0 v (stops _) (stops _) same
    rw [here] at same
    have there := (List.cons.inj (List.append_cancel_left same)).2
    exact List.forall_mem_cons.mpr ⟨here, ih there⟩

theorem repeats_of_lines (plain : style.color = false) {vs ws : List Value}
    (distinct : ∀ v ∈ vs, v.Distinct)
    (all : decodeAll (bytesOf (lines (vs.map (Json.print style)))) = (ws, none))
    (same : lines (ws.map (Json.print style)) = lines (vs.map (Json.print style))) :
    ∀ v ∈ vs, Repeats v := by
  have alive : ((between []).feed (lines (vs.map (Json.print style)))).Alive :=
    Json.Reader.alive_of_finish (decodeAll_eq_iff.mp all)
  have read := settles_of_alive plain distinct alive
  rw [decodeAll_lines fun v mem => (read v mem).2.mono (read v mem).1] at all
  cases all
  exact fun v mem =>
    ⟨(read v mem).1, (Json.write_decoded_iff plain 0 v).mp (eq_of_lines plain same v mem)⟩

theorem decodeAll_of_repeats (plain : style.color = false) {vs : List Value}
    (distinct : ∀ v ∈ vs, v.Distinct) (repeats : ∀ v ∈ vs, Repeats v) :
    decodeAll (bytesOf (lines (vs.map (Json.print style)))) = (vs.map decoded, none) ∧
      (vs.map decoded).map (Json.print style) = vs.map (Json.print style) := by
  refine ⟨decodeAll_lines fun v mem => (repeats v mem).settles plain (distinct v mem), ?_⟩
  rw [List.map_map]
  refine List.map_congr_left fun v mem => ?_
  show String.ofList (style.write 0 (decoded v)) = _
  rw [(Json.write_decoded_iff plain 0 v).mpr (repeats v mem).numbers]
  rfl

end Lines

/-! ### Runs -/

theorem compile_identity : Query.compile "(id)" = .ok .identity := by cbv

section Runs

variable [Platform]

theorem evaluates_identity_iff {values results : List Value} :
    Evaluates .identity values results ↔ values = results := by
  have same : (fun value result => Query.Expression.identity.evaluate value = .ok result) = Eq := by
    funext value result
    rw [Query.Expression.evaluate, Except.ok.injEq]
  rw [Evaluates, same, List.forall₂_eq_eq_eq]

theorem distinct_of_evaluates {query : String} {e : Query.Expression}
    (compiled : Query.compile query = .ok e) {values results : List Value}
    (evaluated : Evaluates e values results) (distinct : ∀ v ∈ values, v.Distinct) :
    ∀ w ∈ results, w.Distinct := by
  induction evaluated with
  | nil => exact nofun
  | cons here _ ih =>
    obtain ⟨first, others⟩ := List.forall_mem_cons.mp distinct
    exact List.forall_mem_cons.mpr ⟨Query.distinct_of_evaluate compiled first here, ih others⟩

/-- The identity makes of the output of a run the same output, and the same number of records, if
and only if each result repeats: it nests at most 127 containers, and the text of every number in
it is decoded to a number with the same text. -/
theorem run_identity_output {query : String} {style : Style} (plain : style.color = false)
    {room : Option Nat} {input : List UInt8} {n : Nat}
    (ok : (run query style room input).result = .ok n) :
    ∃ e results, Query.compile query = .ok e ∧ Evaluates e (decodeAll input).1 results ∧
      (run "(id)" style room (run query style room input).output.data.toList =
          run query style room input ↔ ∀ v ∈ results, Repeats v) := by
  obtain ⟨e, results, compiled, -, evaluated, -, outcome, output⟩ := ok_of_run ok
  have distinct := distinct_of_evaluates compiled evaluated (Json.distinct_of_decodeAll input)
  refine ⟨e, results, compiled, evaluated, ?_⟩
  rw [output]
  constructor
  · intro again
    obtain ⟨e', results', compiled', whole, evaluated', -, -, output'⟩ := ok_of_run (again ▸ ok)
    obtain rfl := Except.ok.inj (compile_identity.symm.trans compiled')
    obtain rfl := evaluates_identity_iff.mp evaluated'
    rw [again, output] at output'
    exact repeats_of_lines plain distinct (Prod.ext rfl whole)
      (Json.bytesOf_injective output'.symm)
  · intro repeats
    obtain ⟨all, texts⟩ := decodeAll_of_repeats plain distinct repeats
    have identity := process_of_evaluates style (evaluates_identity_iff.mpr rfl :
      Evaluates .identity (results.map decoded) _) (.start room) 0
    rw [outcome, run, compile_identity]
    dsimp only
    rw [all]
    dsimp only
    rw [identity, texts, List.length_map, Nat.zero_add]

end Runs

theorem run_identity_output_seven :
    run "(id)" Json.compact none
        (run "7" Json.compact none (bytesOf "null".toList)).output.data.toList =
      run "7" Json.compact none (bytesOf "null".toList) := by
  have ok : (run "7" Json.compact none (bytesOf "null".toList)).result = .ok 1 := by cbv
  have seven : Query.compile "7" = .ok (.constant (.integer 7)) := by cbv
  obtain ⟨e, results, compiled, evaluated, again⟩ := run_identity_output rfl ok
  obtain rfl := Except.ok.inj (seven.symm.trans compiled)
  have values : decodeAll (bytesOf "null".toList) = ([.null], none) := by cbv
  rw [values] at evaluated
  cases evaluated with
  | cons here rest =>
    cases here
    cases rest
    refine again.mpr fun v mem => ?_
    obtain rfl := List.mem_singleton.mp mem
    refine ⟨Nat.zero_le _, fun u inside _ => ?_⟩
    cases inside with
    | self => exact ⟨.float (Float.ofNat 7), rfl, by decide +kernel⟩
    | child mem => cases mem

/-- An integer between two floats is not written again. -/
theorem run_identity_rounds :
    (run "9007199254740993" Json.compact none (bytesOf "null".toList)).result = .ok 1 ∧
      (run "9007199254740993" Json.compact none (bytesOf "null".toList)).output.data.toList =
        bytesOf "9007199254740993\n".toList ∧
      (run "(id)" Json.compact none (bytesOf "9007199254740993\n".toList)).output.data.toList =
        bytesOf "9007199254740992\n".toList := by
  refine ⟨by cbv, by cbv, ?_⟩
  have values : decodeAll (bytesOf "9007199254740993\n".toList) =
      ([.float (Float.ofNat 9007199254740993)], none) := rfl
  have text : Json.print Json.compact (.float (Float.ofNat 9007199254740993)) =
      "9007199254740992" := by decide +kernel
  have identity := process_of_evaluates Json.compact (evaluates_identity_iff.mpr rfl :
    Evaluates .identity [.float (Float.ofNat 9007199254740993)] _) (.start none) 0
  rw [List.map_singleton, List.length_singleton, text] at identity
  rw [run, compile_identity]
  dsimp only
  rw [values]
  dsimp only
  rw [identity]
  cbv

end JsonQuery.Stream
