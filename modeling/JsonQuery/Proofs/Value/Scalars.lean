import JsonQuery.Proofs.Value.Sorted
import Mathlib.Data.List.Perm.Basic

/-!
# Scalars of a value

`Value.mapScalars` changes the scalars of a value and keeps its arrays, its tables and their keys.
`Value.scalars` are all of them, from left to right.
-/

namespace JsonQuery

namespace Value

def isScalar : Value → Bool
  | .array _ | .object _ => false
  | _ => true

/-- A scalar inside an array or an object is inside one of its parts. -/
theorem Inside.of_container {u v : Value} (inside : Inside u v) (scalar : u.isScalar = true)
    (container : v.isScalar = false) : ∃ part ∈ v.children, Inside u part := by
  cases inside with
  | self => cases scalar.symm.trans container
  | child mem inside => exact ⟨_, mem, inside⟩

mutual

/-- The value with `f` applied to every scalar in it. -/
def mapScalars (f : Value → Value) : Value → Value
  | .array items => .array (mapScalarsItems f items)
  | .object fields => .object (mapScalarsFields f fields)
  | v => f v

def mapScalarsItems (f : Value → Value) : List Value → List Value
  | [] => []
  | item :: rest => item.mapScalars f :: mapScalarsItems f rest

def mapScalarsFields (f : Value → Value) : List (String × Value) → List (String × Value)
  | [] => []
  | (key, v) :: rest => (key, v.mapScalars f) :: mapScalarsFields f rest

end

theorem mapScalars_array (f : Value → Value) (items : List Value) :
    (Value.array items).mapScalars f = .array (items.map (mapScalars f)) := by
  rw [mapScalars]
  congr 1
  induction items with
  | nil => rfl
  | cons item rest ih => rw [mapScalarsItems, ih, List.map_cons]

theorem mapScalarsFields_eq (f : Value → Value) (fields : Entries Value) :
    mapScalarsFields f fields = Entries.mapValues (mapScalars f) fields := by
  induction fields with
  | nil => rfl
  | cons field rest ih => rw [mapScalarsFields, ih, Entries.mapValues_cons]

theorem mapScalars_object (f : Value → Value) (fields : Entries Value) :
    (Value.object fields).mapScalars f = .object (Entries.mapValues (mapScalars f) fields) := by
  rw [mapScalars, mapScalarsFields_eq]

theorem mapScalars_scalar {v : Value} (scalar : v.isScalar = true) (f : Value → Value) :
    v.mapScalars f = f v := by
  cases v with
  | array | object => cases scalar
  | _ => rw [mapScalars] <;> (intro _ same; cases same)

theorem mem_children_of_sorted {fields : Entries Value} {field : String × Value}
    (mem : field ∈ Entries.sorted fields) : field.2 ∈ (object fields).children :=
  List.mem_map_of_mem ((Entries.sorted_perm fields).mem_iff.mp mem)

theorem sorted_scalar {v : Value} (scalar : v.isScalar = true) : v.sorted = v := by
  cases v with
  | array | object => cases scalar
  | _ => rw [sorted] <;> (intro _ same; cases same)

theorem sorted_mapScalars_array (f : Value → Value) (items : List Value) :
    ((Value.array items).mapScalars f).sorted =
      .array (items.map fun item => (item.mapScalars f).sorted) := by
  rw [mapScalars_array, sorted_array, List.map_map]
  rfl

theorem sorted_mapScalars_object (f : Value → Value) (fields : Entries Value) :
    ((Value.object fields).mapScalars f).sorted =
      .object (Entries.mapValues (fun v => (v.mapScalars f).sorted) (Entries.sorted fields)) := by
  rw [mapScalars_object, sorted_object, Entries.sorted_mapValues]
  simp only [Entries.mapValues, List.map_map]
  rfl

mutual

/-- All scalars at any depth, from left to right. -/
def scalars : Value → List Value
  | .array items => scalarsItems items
  | .object fields => scalarsFields fields
  | v => [v]

def scalarsItems : List Value → List Value
  | [] => []
  | item :: rest => item.scalars ++ scalarsItems rest

def scalarsFields : List (String × Value) → List Value
  | [] => []
  | (_, v) :: rest => v.scalars ++ scalarsFields rest

end

theorem scalarsItems_eq (items : List Value) : scalarsItems items = items.flatMap scalars := by
  induction items with
  | nil => rfl
  | cons item rest ih => rw [scalarsItems, ih, List.flatMap_cons]

theorem scalarsFields_eq (fields : Entries Value) :
    scalarsFields fields = fields.flatMap fun field => field.2.scalars := by
  induction fields with
  | nil => rfl
  | cons field rest ih => rw [scalarsFields, ih, List.flatMap_cons]

theorem scalars_scalar {v : Value} (scalar : v.isScalar = true) : v.scalars = [v] := by
  cases v with
  | array | object => cases scalar
  | _ => rw [scalars] <;> (intro _ same; cases same)

/-- The order of the fields decides only in which order the scalars stand. -/
theorem scalars_sorted (v : Value) : v.sorted.scalars.Perm v.scalars := by
  induction v using induction_children with
  | whole v ih =>
    cases v with
    | array items =>
      rw [sorted_array, scalars, scalars, scalarsItems_eq, scalarsItems_eq, List.flatMap_map]
      exact List.Perm.flatMap_left items fun item mem => ih item mem
    | object fields =>
      have parts : ∀ field ∈ Entries.sorted fields, field.2.sorted.scalars.Perm field.2.scalars :=
        fun field mem => ih field.2 (mem_children_of_sorted mem)
      rw [sorted_object, scalars, scalars, scalarsFields_eq, scalarsFields_eq, Entries.mapValues,
        List.flatMap_map]
      exact (List.Perm.flatMap_left _ parts).trans ((Entries.sorted_perm fields).flatMap_right _)
    | _ => rw [sorted_scalar rfl]

/-- Values that differ in the order of fields still do with other values in the place of their
scalars. -/
theorem sorted_mapScalars (f : Value → Value) (v : Value) :
    (v.mapScalars f).sorted = v.sorted.mapScalars fun s => (f s).sorted := by
  have leaf {v : Value} (scalar : v.isScalar = true) :
      (v.mapScalars f).sorted = v.sorted.mapScalars fun s => (f s).sorted := by
    rw [sorted_scalar scalar, mapScalars_scalar scalar, mapScalars_scalar scalar]
  induction v using induction_children with
  | whole v ih =>
    cases v with
    | array items =>
      have parts : ∀ item ∈ items,
          (item.mapScalars f).sorted = item.sorted.mapScalars fun s => (f s).sorted := ih
      rw [sorted_mapScalars_array, sorted_array, mapScalars_array, List.map_map,
        List.map_congr_left parts]
      rfl
    | object fields =>
      have parts : ∀ field ∈ Entries.sorted fields,
          (field.2.mapScalars f).sorted = field.2.sorted.mapScalars fun s => (f s).sorted :=
        fun field mem => ih field.2 (mem_children_of_sorted mem)
      rw [sorted_mapScalars_object, sorted_object, mapScalars_object, Entries.mapValues,
        Entries.mapValues, Entries.mapValues, List.map_map,
        List.map_congr_left fun field mem => congrArg (Prod.mk field.1) (parts field mem)]
      rfl
    | _ => exact leaf rfl

/-- Without fields there is only one order. -/
theorem eq_of_sorted_eq {v w : Value} (plain : ∀ fields, ¬Inside (.object fields) v)
    (same : v.sorted = w.sorted) : v = w := by
  induction v using induction_children generalizing w with
  | whole v ih =>
    cases v with
    | array items =>
      cases w with
      | array others =>
        have parts : ∀ item ∈ items, ∀ other, item.sorted = other.sorted → item = other :=
          fun item mem other => ih item mem fun fields inside => plain fields (.child mem inside)
        rw [sorted_array, sorted_array, Value.array.injEq] at same
        clear ih plain
        congr 1
        induction items generalizing others with
        | nil => exact (List.map_eq_nil_iff.mp same.symm).symm
        | cons item rest ih =>
          obtain ⟨other, others, rfl, first, more⟩ := List.map_eq_cons_iff.mp same.symm
          obtain ⟨here, there⟩ := List.forall_mem_cons.mp parts
          rw [here other first.symm, ih others more.symm there]
      | _ => simp [sorted] at same
    | object fields => exact absurd .self (plain fields)
    | _ =>
      rw [sorted_scalar rfl] at same
      cases w with
      | array | object => simp [sorted] at same
      | _ => exact same.trans (sorted_scalar rfl)

end Value

end JsonQuery
