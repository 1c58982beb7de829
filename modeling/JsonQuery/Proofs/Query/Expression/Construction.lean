import JsonQuery.Proofs.Json.Controls
import JsonQuery.Proofs.Json.Spacing
import JsonQuery.Proofs.Query.Expression.Mapping
import JsonQuery.Proofs.Query.Expression.Roles

/-!
# Constructing containers

The pairs of an object are evaluated in order, each key before its value, and every one of them must
succeed, also if a later one overwrites it (`evaluate_object_eq_error_iff`). Under each key the value
of the last pair remains, and addressing, `keys` and the printer all see the same fields in the order
of their keys (`evaluate_constructed`). The items of an array are likewise all evaluated before one is
picked.
-/

namespace JsonQuery.Query.Expression

section Evaluation

variable [Platform] {input w : Value} {pairs : List (Expression × Expression)}
  {pair : Expression × Expression} {index : Nat} {failure : EvalError}

/-! ### Pairs -/

/-- The pair is evaluated to this field. -/
def Yields (input : Value) (pair : Expression × Expression) (field : String × Value) : Prop :=
  pair.1.evaluate input = .ok (.string field.1) ∧ pair.2.evaluate input = .ok field.2

/-- The first step of the pair at `index` that fails: the evaluation of its key, the test that this is
a string, or the evaluation of its value. -/
inductive PairFails (input : Value) (index : Nat) : Expression × Expression → EvalError → Prop where
  | key {key value : Expression} {failure : EvalError}
      (failed : key.evaluate input = .error failure) : PairFails input index (key, value) failure
  | kind {key value : Expression} {found : Value} (evaluated : key.evaluate input = .ok found)
      (other : found.kind ≠ .string) :
      PairFails input index (key, value) (.objectKey index found.kind)
  | value {key value : Expression} {s : String} {failure : EvalError}
      (named : key.evaluate input = .ok (.string s))
      (failed : value.evaluate input = .error failure) : PairFails input index (key, value) failure

def evaluatePair (input : Value) (step : (Expression × Expression) × Nat) :
    Result (String × Value) :=
  step.1.1.evaluate input >>= fun found =>
    match found with
    | .string s => (step.1.2.evaluate input).map (s, ·)
    | other => .error (.objectKey step.2 other.kind)

theorem evaluatePair_eq_ok_iff {field : String × Value} :
    evaluatePair input (pair, index) = .ok field ↔ Yields input pair field := by
  constructor
  · intro ok
    obtain ⟨found, named, ok⟩ := bind_eq_ok_iff.mp ok
    cases found with
    | string s =>
      obtain ⟨v, valued, rfl⟩ := map_eq_ok_iff.mp ok
      exact ⟨named, valued⟩
    | _ => cases ok
  · rintro ⟨named, valued⟩
    exact bind_eq_ok_iff.mpr ⟨_, named, map_eq_ok_iff.mpr ⟨_, valued, rfl⟩⟩

theorem evaluatePair_eq_error_iff :
    evaluatePair input (pair, index) = .error failure ↔ PairFails input index pair failure := by
  constructor
  · intro failed
    rcases bind_eq_error_iff.mp failed with here | ⟨found, evaluated, failed⟩
    · exact .key here
    · cases found with
      | string s => exact .value evaluated (map_eq_error_iff.mp failed)
      | _ =>
        cases failed
        refine .kind evaluated fun same => ?_
        cases same
  · intro fails
    cases fails with
    | key failed => exact bind_eq_error_iff.mpr (.inl failed)
    | @kind _ _ found evaluated other =>
      refine bind_eq_error_iff.mpr (.inr ⟨found, evaluated, ?_⟩)
      cases found with
      | string s => exact absurd rfl other
      | _ => rfl
    | value named failed =>
      exact bind_eq_error_iff.mpr (.inr ⟨_, named, map_eq_error_iff.mpr failed⟩)

theorem evaluatePair_isOk_iff :
    (∃ field, evaluatePair input (pair, index) = .ok field) ↔ PairEvaluates input pair := by
  simp only [evaluatePair_eq_ok_iff]
  constructor
  · rintro ⟨field, named, valued⟩
    exact ⟨⟨field.1, named⟩, field.2, valued⟩
  · rintro ⟨⟨s, named⟩, v, valued⟩
    exact ⟨(s, v), named, valued⟩

theorem evaluatePairs_eq_mapM (index : Nat) :
    evaluatePairs index pairs input = (pairs.zipIdx index).mapM (evaluatePair input) := by
  induction pairs generalizing index with
  | nil => rfl
  | cons pair rest ih =>
    rw [List.zipIdx_cons, List.mapM_cons, ← ih, evaluatePair, bind_assoc]
    refine congrArg _ (funext fun found => ?_)
    cases found with
    | string s => cases pair.2.evaluate input <;> rfl
    | _ => rfl

theorem evaluate_object :
    (object pairs).evaluate input =
      (pairs.zipIdx.mapM (evaluatePair input)).map fun fields =>
        .object (Entries.ofWrites fields) := by
  rw [← evaluatePairs_eq_mapM]
  show (evaluatePairs 0 pairs input >>= fun fields =>
    .ok (Value.object (Entries.ofWrites fields))) = _
  cases evaluatePairs 0 pairs input <;> rfl

theorem evaluate_object_isOk_iff :
    (∃ w, (object pairs).evaluate input = .ok w) ↔ ∀ pair ∈ pairs, PairEvaluates input pair := by
  rw [evaluate_object, map_isOk_iff, (each_mapM _ _).isOk_iff]
  conv_rhs => rw [← List.zipIdx_map_fst 0 pairs]
  rw [List.forall_mem_map]
  exact forall₂_congr fun _ _ => evaluatePair_isOk_iff

theorem evaluate_object_eq_error_iff :
    (object pairs).evaluate input = .error failure ↔
      ∃ (i : Nat) (pair : Expression × Expression), pairs[i]? = some pair ∧
        PairFails input i pair failure ∧
        ∀ j < i, ∀ earlier, pairs[j]? = some earlier → PairEvaluates input earlier := by
  have numbered {i : Nat} {step : (Expression × Expression) × Nat} :
      pairs.zipIdx[i]? = some step ↔ ∃ pair, pairs[i]? = some pair ∧ (pair, i) = step := by
    rw [List.getElem?_zipIdx, Option.map_eq_some_iff, Nat.zero_add]
  rw [evaluate_object, map_eq_error_iff, mapM_eq_error_iff]
  constructor
  · rintro ⟨i, step, here, failed, earlier⟩
    obtain ⟨pair, there, rfl⟩ := numbered.mp here
    refine ⟨i, pair, there, evaluatePair_eq_error_iff.mp failed, fun j before other first => ?_⟩
    exact evaluatePair_isOk_iff.mp (earlier j before _ (numbered.mpr ⟨other, first, rfl⟩))
  · rintro ⟨i, pair, there, failed, earlier⟩
    refine ⟨i, (pair, i), numbered.mpr ⟨pair, there, rfl⟩, evaluatePair_eq_error_iff.mpr failed,
      fun j before step here => ?_⟩
    obtain ⟨other, first, rfl⟩ := numbered.mp here
    exact evaluatePair_isOk_iff.mpr (earlier j before other first)

/-- The fields in the order in which they are written. -/
theorem yields_of_object (ok : (object pairs).evaluate input = .ok w) :
    ∃ fields, List.Forall₂ (Yields input) pairs fields ∧ w = .object (Entries.ofWrites fields) := by
  rw [evaluate_object] at ok
  obtain ⟨fields, evaluated, rfl⟩ := map_eq_ok_iff.mp ok
  have each := each_mapM (evaluatePair input) pairs.zipIdx
  rw [evaluated] at each
  refine ⟨fields, ?_, rfl⟩
  rw [← List.zipIdx_map_fst 0 pairs, List.forall₂_map_left_iff]
  exact List.Forall₂.imp (fun _ _ => evaluatePair_eq_ok_iff.mp) each

/-! ### Fields -/

theorem mem_keys_of_yields {fields : Entries Value}
    (yields : List.Forall₂ (Yields input) pairs fields) {s : String} :
    s ∈ fields.keys ↔ ∃ pair ∈ pairs, pair.1.evaluate input = .ok (.string s) := by
  induction yields with
  | nil => simp [Entries.keys]
  | @cons pair field rest fields here _ ih =>
    have first : pair.1.evaluate input = .ok (.string s) ↔ s = field.1 := by
      rw [here.1, Except.ok.injEq, Value.string.injEq, eq_comm]
    rw [List.exists_mem_cons_iff, first, ← ih]
    exact List.mem_cons

/-- Behind the pair no other one has its key. -/
theorem find?_of_yields {fields : Entries Value} {before after : List (Expression × Expression)}
    {key value : Expression} {s : String}
    (yields : List.Forall₂ (Yields input) (before ++ (key, value) :: after) fields)
    (named : key.evaluate input = .ok (.string s))
    (last : ∀ pair ∈ after, pair.1.evaluate input ≠ .ok (.string s)) :
    ∃ v, value.evaluate input = .ok v ∧ Entries.find? s fields.reverse = some v := by
  induction before generalizing fields with
  | nil =>
    obtain ⟨field, others, ⟨name, valued⟩, behind, rfl⟩ := List.forall₂_cons_left_iff.mp yields
    -- in a table made of later writes the key does not stand either
    have absent : Entries.find? s others.reverse = none := by
      rw [← Entries.find?_ofWrites, Entries.find?_eq_none_iff, Entries.mem_keys_ofWrites,
        mem_keys_of_yields behind]
      rintro ⟨pair, mem, same⟩
      exact last pair mem same
    have same : field.1 = s := Value.string.inj (Except.ok.inj (name.symm.trans named))
    refine ⟨field.2, valued, ?_⟩
    rw [List.reverse_cons, Entries.find?_append, absent, Entries.find?, if_pos same]
    rfl
  | cons pair before ih =>
    obtain ⟨field, others, -, behind, rfl⟩ := List.forall₂_cons_left_iff.mp yields
    obtain ⟨v, valued, found⟩ := ih behind
    refine ⟨v, valued, ?_⟩
    rw [List.reverse_cons, Entries.find?_append, found]
    rfl

/-! ### Readers -/

theorem evaluate_address {v position : Value} (suits : Suits v position) :
    (element (constant position) identity).evaluate v =
      .ok ((child? v position).getD .null) := by
  show resolve identity.evaluate (partsOf v) position = _
  rw [resolve_of_suits _ suits, evaluate_identity]
  cases child? v position <;> rfl

/-- In whatever order a table has its fields, its keys come in ascending order. -/
theorem evaluate_keys_object {table members : Entries Value} (same : table.Perm members)
    (ascending : members.Ascending) :
    keys.evaluate (.object table) = .ok (.array (members.keys.map .string)) := by
  show keysOf (.object table) = _
  rw [keysOf, Entries.sorted_of_perm same ascending]

end Evaluation

end JsonQuery.Query.Expression

namespace JsonQuery.Json

/-- On one line the level does not matter. -/
theorem write_compact (level level' : Nat) (v : Value) :
    compact.write level v = compact.write level' v := by
  have condenses (other : Nat) : Condenses (compact.write level v) (compact.write other v) :=
    Style.condenses_write level other v
  exact (condenses level).text.symm.trans (condenses level').text

/-- In whatever order a table has its fields, they are printed in ascending order. -/
theorem print_object {table members : Entries Value} (same : table.Perm members)
    (ascending : members.Ascending) :
    (print compact (.object table)).toList =
      '{' :: (List.intercalate [',']
        (members.map fun field => quote field.1 ++ ':' :: (print compact field.2).toList) ++
          ['}']) := by
  have enclosed (parts : List (List Char)) :
      compact.enclose 0 '{' '}' parts = '{' :: (List.intercalate [','] parts ++ ['}']) := by
    cases parts <;> rfl
  rw [print, String.toList_ofList, Style.write_object, Entries.sorted_of_perm same ascending,
    enclosed, Entries.mapValues, List.map_map]
  refine congrArg (fun parts => '{' :: (List.intercalate [','] parts ++ ['}'])) ?_
  refine List.map_congr_left fun field _ => ?_
  show compact.member (field.1, compact.write 1 field.2) = _
  rw [print, String.toList_ofList, Style.write_member rfl, write_compact 1 0]
  rfl

end JsonQuery.Json

namespace JsonQuery.Query.Expression

section Evaluation

variable [Platform] {input w : Value} {es : List Expression}

theorem evaluateAll_eq_mapM (es : List Expression) (input : Value) :
    evaluateAll es input = es.mapM fun (e : Expression) => e.evaluate input := by
  induction es with
  | nil => rfl
  | cons e rest ih => rw [evaluateAll, List.mapM_cons, ih]

/-- All items are evaluated, then one is picked. -/
theorem evaluate_picked {i : Nat} (small : i < Value.integerBound) :
    (pipe [array es, element (constant (.integer (Int64.ofNat i))) identity]).evaluate input =
      (es.mapM fun (e : Expression) => e.evaluate input).map fun values =>
        values[i]?.getD .null := by
  rw [evaluate_pipe_pair, ← evaluateAll_eq_mapM]
  show ((evaluateAll es input >>= fun values => .ok (Value.array values)) >>= _) = _
  cases evaluateAll es input with
  | error e => rfl
  | ok values =>
    show (element (constant (.integer (Int64.ofNat i))) identity).evaluate (.array values) = _
    rw [evaluate_address (.index values _), child?_ofNat values small]
    rfl

theorem evaluate_picked_of_ok {i : Nat} (small : i < Value.integerBound)
    (all : ∀ e ∈ es, ∃ v, e.evaluate input = .ok v) :
    (pipe [array es, element (constant (.integer (Int64.ofNat i))) identity]).evaluate input =
      (es[i]?.map fun (e : Expression) => e.evaluate input).getD (.ok .null) := by
  have each := each_mapM (fun e : Expression => e.evaluate input) es
  obtain ⟨values, evaluated⟩ := each.isOk_iff.mpr all
  rw [evaluate_picked small, evaluated]
  rw [evaluated] at each
  show Except.ok (values[i]?.getD .null) = _
  cases found : values[i]? with
  | some v =>
    obtain ⟨e, here, picked⟩ := each.of_getElem? found
    rw [here]
    exact picked.symm
  | none =>
    rw [List.getElem?_eq_none_iff, each.length, ← List.getElem?_eq_none_iff] at found
    rw [found]
    rfl

/-- An object is made if and only if all its keys are strings and all its values are there, and its
error is that of the first step that fails. Its keys are those of the pairs, and each has the value
of its last pair. In whatever order the table has its fields, `keys` and the printer go by the bytes
of the keys. An item of an array is there if all of them are, and otherwise the first error is. -/
theorem evaluate_constructed (input : Value) :
    (∀ pairs : List (Expression × Expression),
      ((∃ w, (object pairs).evaluate input = .ok w) ↔
        ∀ pair ∈ pairs, PairEvaluates input pair) ∧
      (∀ failure, (object pairs).evaluate input = .error failure ↔
        ∃ (i : Nat) (pair : Expression × Expression), pairs[i]? = some pair ∧
          PairFails input i pair failure ∧
          ∀ j < i, ∀ earlier, pairs[j]? = some earlier → PairEvaluates input earlier) ∧
      ∀ w, (object pairs).evaluate input = .ok w → ∃ members : Entries Value,
        w = .object members ∧
        (∀ s, s ∈ members.keys ↔ ∃ pair ∈ pairs, pair.1.evaluate input = .ok (.string s)) ∧
        members.keys.Pairwise (fun a b => Json.bytesOf a.toList < Json.bytesOf b.toList) ∧
        ∀ table : Entries Value, table.Perm members →
          (∀ before key value after s, pairs = before ++ (key, value) :: after →
            key.evaluate input = .ok (.string s) →
            (∀ pair ∈ after, pair.1.evaluate input ≠ .ok (.string s)) →
            (element (constant (.string s)) identity).evaluate (.object table) =
              value.evaluate input) ∧
          (∀ s, (∀ pair ∈ pairs, pair.1.evaluate input ≠ .ok (.string s)) →
            (element (constant (.string s)) identity).evaluate (.object table) = .ok .null) ∧
          keys.evaluate (.object table) = .ok (.array (members.keys.map .string)) ∧
          (Json.print Json.compact (.object table)).toList =
            '{' :: (List.intercalate [','] (members.map fun field =>
              Json.quote field.1 ++ ':' :: (Json.print Json.compact field.2).toList) ++ ['}'])) ∧
    ∀ (es : List Expression) (i : Nat), i < Value.integerBound →
      let picked :=
        (pipe [array es, element (constant (.integer (Int64.ofNat i))) identity]).evaluate input
      ((∀ e ∈ es, ∃ v, e.evaluate input = .ok v) →
        (∀ e, es[i]? = some e → picked = e.evaluate input) ∧
        (es.length ≤ i → picked = .ok .null)) ∧
      ∀ failure, picked = .error failure ↔ Each (fun e => e.evaluate input) es (.error failure) := by
  refine ⟨fun pairs => ⟨evaluate_object_isOk_iff, fun failure => evaluate_object_eq_error_iff,
    ?fields⟩, ?items⟩
  case fields =>
    intro w ok
    obtain ⟨fields, yields, rfl⟩ := yields_of_object ok
    have ascending := Entries.ascending_ofWrites fields
    refine ⟨Entries.ofWrites fields, rfl, fun s => ?_,
      List.Pairwise.imp lt_iff_bytesOf_lt.mp ascending, fun table same => ?_⟩
    · rw [Entries.mem_keys_ofWrites, mem_keys_of_yields yields]
    have found (s : String) : Entries.find? s table = Entries.find? s fields.reverse := by
      rw [Entries.find?_perm (ascending.distinct.perm same.symm) same, Entries.find?_ofWrites]
    refine ⟨?last, fun s absent => ?_, evaluate_keys_object same ascending,
      Json.print_object same ascending⟩
    case last =>
      rintro before key value after s rfl named last
      obtain ⟨v, valued, latest⟩ := find?_of_yields yields named last
      rw [evaluate_address (.key _ s), child?, found, latest, valued]
      rfl
    · have missing : Entries.find? s (Entries.ofWrites fields) = none := by
        rw [Entries.find?_eq_none_iff, Entries.mem_keys_ofWrites, mem_keys_of_yields yields]
        rintro ⟨pair, mem, same⟩
        exact absent pair mem same
      rw [evaluate_address (.key _ s), child?, found, ← Entries.find?_ofWrites, missing]
      rfl
  case items =>
    intro es i small picked
    refine ⟨fun all => ⟨fun e here => ?_, fun beyond => ?_⟩, fun failure => ?_⟩
    · show (pipe _).evaluate input = _
      rw [evaluate_picked_of_ok small all, here]
      rfl
    · show (pipe _).evaluate input = _
      rw [evaluate_picked_of_ok small all, List.getElem?_eq_none_iff.mpr beyond]
      rfl
    · show (pipe _).evaluate input = _ ↔ _
      rw [evaluate_picked small, map_eq_error_iff, mapM_eq_error_iff]

end Evaluation

theorem evaluate_constructed_overwritten :
    let input := Value.string "b"
    let pairs := [(constant (.string "b"), constant .null), (identity, constant (.boolean true)),
      (constant (.string "a"), constant .null)]
    (∀ pair ∈ pairs, PairEvaluates input pair) ∧
    (∃ members : Entries Value, (object pairs).evaluate input = .ok (.object members) ∧
      members.reverse.Perm members ∧
      (element (constant (.string "b")) identity).evaluate (.object members.reverse) =
        .ok (.boolean true) ∧
      (element (constant (.string "c")) identity).evaluate (.object members.reverse) =
        .ok .null ∧
      keys.evaluate (.object members.reverse) = .ok (.array (members.keys.map .string))) ∧
    1 < Value.integerBound ∧
    (pipe [array [not identity, identity], element (constant (.integer 1)) identity]).evaluate
      input = .ok input := by
  intro input pairs
  obtain ⟨objects, arrays⟩ := evaluate_constructed input
  have evaluates : ∀ pair ∈ pairs, PairEvaluates input pair := by
    simp only [pairs, List.forall_mem_cons]
    exact ⟨⟨⟨"b", rfl⟩, .null, rfl⟩, ⟨⟨"b", rfl⟩, .boolean true, rfl⟩, ⟨⟨"a", rfl⟩, .null, rfl⟩,
      List.forall_mem_nil _⟩
  obtain ⟨isOk, -, fields⟩ := objects pairs
  obtain ⟨w, ok⟩ := isOk.mpr evaluates
  obtain ⟨members, rfl, -, -, readers⟩ := fields w ok
  have same : members.reverse.Perm members := List.reverse_perm members
  obtain ⟨last, absent, listed, -⟩ := readers members.reverse same
  have small : 1 < Value.integerBound := by decide
  refine ⟨evaluates, ⟨members, ok, same, ?_, absent "c" ?_, listed⟩, small, ?_⟩
  · refine last [(constant (.string "b"), constant .null)] identity (constant (.boolean true))
      [(constant (.string "a"), constant .null)] "b" rfl rfl ?_
    simp [evaluate]
  · simp [pairs, input, evaluate]
  · refine ((arrays [not identity, identity] 1 small).1 ?_).1 identity rfl
    exact List.forall_mem_cons.mpr ⟨⟨.boolean false, rfl⟩,
      List.forall_mem_singleton.mpr ⟨input, rfl⟩⟩

end JsonQuery.Query.Expression
