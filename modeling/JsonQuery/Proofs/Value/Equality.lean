import JsonQuery.Proofs.Decimal.Doubles
import JsonQuery.Proofs.Value.Sorted

/-!
# Structural equality

A regular value has no NaN and no negative zero inside, and no table with a key twice. Two regular
values are structurally equal if and only if they have the same sorted form (`deepEq_iff`), so
structural equality of regular values is an equivalence.
-/

namespace JsonQuery.Value

/-- `Regular`, for one value inside. -/
def Plain : Value → Prop
  | .float x => x.isNaN = false ∧ x ≠ -0.0
  | .object fields => Entries.Distinct fields
  | _ => True

/-- A value that a NaN or a negative zero does not tell from itself or from another one. -/
def Regular (v : Value) : Prop := Everywhere Plain v

theorem Regular.item {items : List Value} (h : Regular (.array items)) :
    ∀ item ∈ items, Regular item := (everywhere_array.mp h).2

theorem Regular.field {fields : Entries Value} (h : Regular (.object fields)) :
    ∀ field ∈ fields, Regular field.2 := (everywhere_object.mp h).2

theorem Regular.distinct {fields : Entries Value} (h : Regular (.object fields)) :
    Entries.Distinct fields := h.here

theorem regular_iff {v : Value} :
    Regular v ↔ v.Distinct ∧ ∀ x, Inside (.float x) v → x.isNaN = false ∧ x ≠ -0.0 := by
  constructor
  · intro h
    exact ⟨fun fields inside => h _ inside, fun x inside => h _ inside⟩
  · rintro ⟨distinct, numbers⟩ u inside
    cases u with
    | float x => exact numbers x inside
    | object fields => exact distinct fields inside
    | _ => trivial

theorem beq_iff_eq_of_plain {x y : Float} (hx : Plain (.float x)) (hy : Plain (.float y)) :
    (x == y) = true ↔ x = y := by
  constructor
  · exact fun h => eq_of_beq_float h hx.1 hx.2 hy.2
  · rintro rfl
    exact beq_float_self hx.1

/-- Equal fields of one table are among the fields of the other. -/
theorem mem_of_find?_sorted {field : String × Value} {fields : Entries Value}
    (h : ∃ v, Entries.find? field.1 fields = some v ∧ field.2.sorted = v.sorted) :
    (field.1, field.2.sorted) ∈ Entries.mapValues sorted fields := by
  obtain ⟨v, found, same⟩ := h
  rw [same]
  exact List.mem_map_of_mem (Entries.mem_of_find? found)

mutual

/-- Structural equality of regular values is equality up to the order of fields. -/
theorem deepEq_iff (a : Value) (ha : Regular a) (b : Value) (hb : Regular b) :
    a.deepEq b = true ↔ a.sorted = b.sorted := by
  match a with
  | .array xs =>
    cases b with
    | array ys =>
      rw [deepEq, sorted, sorted, Value.array.injEq]
      exact deepEqItems_iff xs ha.item ys hb.item
    | _ => simp [deepEq, sorted]
  | .object xs =>
    cases b with
    | object ys =>
      have distinct : Entries.Distinct (Entries.mapValues sorted xs) := ha.distinct.mapValues
      have distinct' : Entries.Distinct (Entries.mapValues sorted ys) := hb.distinct.mapValues
      have fields := deepEqFields_iff xs ha.field ys hb.field
      rw [deepEq, sorted, sorted, Value.object.injEq, sortedFields_eq, sortedFields_eq,
        Entries.sorted_eq_iff distinct distinct', Bool.and_eq_true, beq_iff_eq, fields]
      constructor
      -- as many fields, and all of one table in the other: that is a permutation
      · rintro ⟨size, inside⟩
        refine Entries.perm_of_subset distinct (by simpa [Entries.mapValues] using size) ?_
        exact List.forall_mem_map.mpr fun field mem => mem_of_find?_sorted (inside field mem)
      · intro same
        refine ⟨by simpa [Entries.mapValues] using same.length_eq, fun field mem => ?_⟩
        have found := Entries.find?_of_mem distinct'
          (same.mem_iff.mp (List.mem_map_of_mem mem))
        rw [Entries.find?_mapValues] at found
        obtain ⟨v, found, eq⟩ := Option.map_eq_some_iff.mp found
        exact ⟨v, found, eq.symm⟩
    | _ => simp [deepEq, sorted]
  | .float x =>
    cases b with
    | float y =>
      rw [deepEq, sorted, sorted, Value.float.injEq]
      · exact beq_iff_eq_of_plain ha.here hb.here
      all_goals exact nofun
    | _ => simp [deepEq, sorted]
  | .null => cases b <;> simp [deepEq, sorted]
  | .boolean x => cases b <;> simp [deepEq, sorted]
  | .integer n => cases b <;> simp [deepEq, sorted]
  | .string s => cases b <;> simp [deepEq, sorted]

theorem deepEqItems_iff (xs : List Value) (hx : ∀ x ∈ xs, Regular x) (ys : List Value)
    (hy : ∀ y ∈ ys, Regular y) :
    deepEqItems xs ys = true ↔ sortedItems xs = sortedItems ys := by
  match xs with
  | [] => cases ys <;> simp [deepEqItems, sortedItems]
  | x :: xs =>
    cases ys with
    | nil => simp [deepEqItems, sortedItems]
    | cons y ys =>
      obtain ⟨here, there⟩ := List.forall_mem_cons.mp hx
      obtain ⟨here', there'⟩ := List.forall_mem_cons.mp hy
      rw [deepEqItems, sortedItems, sortedItems, Bool.and_eq_true, List.cons.injEq,
        deepEq_iff x here y here', deepEqItems_iff xs there ys there']

theorem deepEqFields_iff (xs : List (String × Value)) (hx : ∀ field ∈ xs, Regular field.2)
    (ys : Entries Value) (hy : ∀ field ∈ ys, Regular field.2) :
    deepEqFields xs ys = true ↔
      ∀ field ∈ xs, ∃ v, Entries.find? field.1 ys = some v ∧ field.2.sorted = v.sorted := by
  match xs with
  | [] => simp [deepEqFields]
  | (key, x) :: xs =>
    obtain ⟨here, there⟩ := List.forall_mem_cons.mp hx
    rw [deepEqFields, Bool.and_eq_true, List.forall_mem_cons, deepEqFields_iff xs there ys hy]
    refine and_congr_left' ?_
    cases found : Entries.find? key ys with
    | none => simp
    | some y =>
      have := deepEq_iff x here y (hy _ (Entries.mem_of_find? found))
      simp [this]

end

theorem deepEq_congr {a a' b b' : Value} (ha : Regular a) (ha' : Regular a') (hb : Regular b)
    (hb' : Regular b') (left : a.sorted = a'.sorted) (right : b.sorted = b'.sorted) :
    a.deepEq b = a'.deepEq b' := by
  rw [Bool.eq_iff_iff, deepEq_iff a ha b hb, deepEq_iff a' ha' b' hb', left, right]

end JsonQuery.Value
