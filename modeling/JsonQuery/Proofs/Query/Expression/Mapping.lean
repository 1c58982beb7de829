import JsonQuery.Proofs.Entries
import JsonQuery.Proofs.Query.Expression.Traversal
import JsonQuery.Proofs.Text.ByteOrder

/-!
# Mapping over everything

An expression is mapped over all parts of a value with `keys` as positions, and over the items of an
array with a filter that is always true. What `keys` yields suits its input, so both go through
the parts one after the other and end at the first failure (`element_keys_array`,
`element_keys_object`, `filter_true`).
-/

namespace JsonQuery.Query.Expression

theorem child?_ofNat (items : List Value) {i : Nat} (small : i < Value.integerBound) :
    child? (.array items) (.integer (Int64.ofNat i)) = items[i]? := by
  have index : (Int64.ofNat i).toInt = i := Int64.toInt_ofNat_of_lt small
  rw [child?, index, if_pos (Int.natCast_nonneg i), Int.toNat_natCast]

/-- Every key as the position of its own value yields the fields. -/
theorem resolveFields_keys {fields table : Entries Value}
    (found : ∀ field ∈ table, Entries.find? field.1 fields = some field.2) :
    resolveFields .ok (partsOf (.object fields))
      (table.map fun field => (field.1, .string field.1)) = .ok table := by
  induction table with
  | nil => rfl
  | cons field rest ih =>
    obtain ⟨here, there⟩ := List.forall_mem_cons.mp found
    have value : resolve .ok (partsOf (.object fields)) (.string field.1) = .ok field.2 := by
      rw [resolve_of_suits .ok (.key fields field.1), child?, here]
      rfl
    rw [List.map_cons, resolveFields, value, ih there]
    rfl

section Evaluation

variable [Platform] (f : Expression)

theorem evaluate_identity : evaluate identity = .ok := by
  funext input
  rw [evaluate]

theorem evaluate_pipe_pair (first second : Expression) (input : Value) :
    (pipe [first, second]).evaluate input = first.evaluate input >>= second.evaluate := by
  refine congrArg _ (funext fun between => ?_)
  show (second.evaluate between >>= .ok) = _
  cases second.evaluate between <;> rfl

theorem element_keys_array {items : List Value} (fits : items.length ≤ Value.integerBound) :
    (element keys f).evaluate (.array items) = (items.mapM f.evaluate).map .array := by
  let index (i : Nat) : Value := .integer (Int64.ofNat i)
  have positions : keys.evaluate (.array items) =
      .ok (.array ((List.range items.length).map index)) := by
    rw [evaluate, keysOf, if_pos fits]
  have suits : ∀ i ∈ List.range items.length, Suits (.array items) (index i) := fun i _ =>
    .index items (Int64.ofNat i)
  have parts : ∀ i ∈ List.range items.length,
      partOf f.evaluate (child? (.array items) (index i)) = partOf f.evaluate items[i]? := by
    intro i mem
    have small : i < Value.integerBound := Nat.lt_of_lt_of_le (List.mem_range.mp mem) fits
    rw [child?_ofNat items small]
  rw [evaluate, positions]
  show resolve f.evaluate _ _ = _
  rw [resolve_map f.evaluate suits parts, mapM_range (partOf f.evaluate) items]
  rfl

theorem element_keys_object {fields : Entries Value} (distinct : Entries.Distinct fields) :
    (element keys f).evaluate (.object fields) =
      (((Entries.sorted fields).map Prod.snd).mapM f.evaluate).map .array := by
  let key (field : String × Value) : Value := .string field.1
  have positions : keys.evaluate (.object fields) =
      .ok (.array ((Entries.sorted fields).map key)) := by
    rw [evaluate, keysOf, Entries.keys, List.map_map]
    rfl
  have suits : ∀ field ∈ Entries.sorted fields, Suits (.object fields) (key field) :=
    fun field _ => .key fields field.1
  have parts : ∀ field ∈ Entries.sorted fields,
      partOf f.evaluate (child? (.object fields) (key field)) = f.evaluate field.2 := by
    intro field mem
    have found : Entries.find? field.1 fields = some field.2 :=
      Entries.find?_of_mem distinct ((Entries.sorted_perm fields).mem_iff.mp mem)
    show partOf f.evaluate (Entries.find? field.1 fields) = _
    rw [found]
    rfl
  rw [evaluate, positions, List.mapM_map]
  exact resolve_map f.evaluate suits parts

theorem mapM_identity (items : List Value) : items.mapM identity.evaluate = .ok items := by
  rw [evaluate_identity]
  exact (@List.mapM_pure Result Value Value _ _ items id).trans (by rw [List.map_id]; rfl)

theorem filter_true (items : List Value) :
    (filter (constant (.boolean true)) f).evaluate (.array items) =
      (items.mapM f.evaluate).map .array := by
  have same : evaluate (constant (.boolean true)) = fun _ => .ok (.boolean true) := by
    funext input
    rw [evaluate]
  rw [evaluate, same, filterItems_true]
  cases items.mapM f.evaluate <;> rfl

theorem element_object_keys {positions : Expression} {fields selectors : Entries Value}
    (distinct : Entries.Distinct fields)
    (selects : positions.evaluate (.object fields) = .ok (.object selectors))
    (all : selectors.Perm (fields.map fun field => (field.1, .string field.1))) :
    ∃ same : Entries Value, same.Perm fields ∧
      (element positions identity).evaluate (.object fields) = .ok (.object same) := by
  have straight : resolveFields .ok (partsOf (.object fields))
      (fields.map fun field => (field.1, .string field.1)) = .ok fields :=
    resolveFields_keys fun field mem => Entries.find?_of_mem distinct mem
  obtain ⟨same, resolved, perm⟩ := resolveFields_perm all.symm straight
  refine ⟨same, perm.symm, ?_⟩
  rw [evaluate, selects, evaluate_identity]
  show resolve .ok _ _ = _
  rw [resolve, resolved]
  rfl

/-- Mapping over everything applies `f` to all items of an array in order, or to all values of an
object in the order of the bytes of their keys, and fails where `f` first does. An array with more
items than there are integers, which no memory holds, has no keys. -/
theorem evaluate_everything :
    (∀ items : List Value, ∃ results : Result (List Value),
      Each f.evaluate items results ∧
      (filter (constant (.boolean true)) f).evaluate (.array items) = results.map .array ∧
      (items.length ≤ Value.integerBound →
        (element keys f).evaluate (.array items) = results.map .array)) ∧
    (∀ items : List Value,
      (filter (constant (.boolean true)) identity).evaluate (.array items) = .ok (.array items) ∧
      (items.length ≤ Value.integerBound →
        (element keys identity).evaluate (.array items) = .ok (.array items))) ∧
    (∀ fields : Entries Value, Entries.Distinct fields →
      ∃ (table : Entries Value) (results : Result (List Value)),
        table.Perm fields ∧
        table.Pairwise (fun a b => Json.bytesOf a.1.toList < Json.bytesOf b.1.toList) ∧
        Each f.evaluate (table.map Prod.snd) results ∧
        (element keys f).evaluate (.object fields) = results.map .array) ∧
    ∀ (fields selectors : Entries Value) (positions : Expression), Entries.Distinct fields →
      positions.evaluate (.object fields) = .ok (.object selectors) →
      selectors.Perm (fields.map fun field => (field.1, .string field.1)) →
      ∃ same : Entries Value, same.Perm fields ∧
        (element positions identity).evaluate (.object fields) = .ok (.object same) := by
  refine ⟨?array, ?identity, ?object, ?selectors⟩
  case array =>
    intro items
    exact ⟨items.mapM f.evaluate, each_mapM f.evaluate items, filter_true f items,
      element_keys_array f⟩
  case identity =>
    intro items
    refine ⟨?_, fun fits => ?_⟩
    · rw [filter_true, mapM_identity]
      rfl
    · rw [element_keys_array identity fits, mapM_identity]
      rfl
  case object =>
    intro fields distinct
    refine ⟨Entries.sorted fields, _, Entries.sorted_perm fields, ?_, each_mapM f.evaluate _,
      element_keys_object f distinct⟩
    exact (Entries.ascending_sorted distinct).pairwise.imp lt_iff_bytesOf_lt.mp
  case selectors =>
    intro fields selectors positions distinct selects all
    exact element_object_keys distinct selects all

end Evaluation

theorem evaluate_everything_two :
    let fields : Entries Value := [("b", .boolean true), ("a", .null)]
    let selectors : Entries Value := [("a", .string "a"), ("b", .string "b")]
    (element keys identity).evaluate (.array [.null, .boolean true]) =
      .ok (.array [.null, .boolean true]) ∧
    Entries.Distinct fields ∧
    (∃ (table : Entries Value) (results : Result (List Value)),
      table.Perm fields ∧
      table.Pairwise (fun a b => Json.bytesOf a.1.toList < Json.bytesOf b.1.toList) ∧
      Each (evaluate identity) (table.map Prod.snd) results ∧
      (element keys identity).evaluate (.object fields) = results.map .array) ∧
    ∃ same : Entries Value, same.Perm fields ∧
      (element (constant (.object selectors)) identity).evaluate (.object fields) =
        .ok (.object same) := by
  intro fields selectors
  have distinct : Entries.Distinct fields := by decide
  obtain ⟨-, unchanged, values, selected⟩ := evaluate_everything identity
  refine ⟨(unchanged _).2 (by decide), distinct, values fields distinct, ?_⟩
  refine selected fields selectors _ distinct ?_ (.swap ..)
  rw [evaluate]

end JsonQuery.Query.Expression
