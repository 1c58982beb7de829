import JsonQuery.Value

/-!
# Values inside values

`Inside u v` says that `u` is a part of `v` at any depth, `v` itself included, and `Everywhere p v`
that `p` holds of all these. A table has every key once, which is `Distinct` for all tables inside
a value.
-/

namespace JsonQuery

namespace Value

/-- The items of an array and the values of the fields of an object. -/
def children : Value → List Value
  | .array items => items
  | .object fields => fields.map Prod.snd
  | _ => []

inductive Inside (u : Value) : Value → Prop where
  | self : Inside u u
  | child {v part : Value} (mem : part ∈ v.children) (inside : Inside u part) : Inside u v

def Everywhere (p : Value → Prop) (v : Value) : Prop := ∀ u, Inside u v → p u

theorem sizeOf_lt_of_mem_children {v part : Value} (mem : part ∈ v.children) :
    sizeOf part < sizeOf v := by
  cases v with
  | array items =>
    have smaller : sizeOf part < sizeOf items := List.sizeOf_lt_of_mem mem
    simp
    omega
  | object fields =>
    obtain ⟨⟨key, value⟩, inside, rfl⟩ := List.mem_map.mp mem
    have smaller := List.sizeOf_lt_of_mem inside
    simp at smaller ⊢
    omega
  | _ => cases mem

/-- A property of all values, by what the parts of a value have. -/
@[elab_as_elim]
theorem induction_children {motive : Value → Prop} (v : Value)
    (whole : ∀ v, (∀ part ∈ v.children, motive part) → motive v) : motive v :=
  whole v fun part _ => induction_children part whole
termination_by sizeOf v
decreasing_by exact sizeOf_lt_of_mem_children ‹_›

theorem everywhere_iff {p : Value → Prop} {v : Value} :
    Everywhere p v ↔ p v ∧ ∀ part ∈ v.children, Everywhere p part := by
  constructor
  · intro h
    exact ⟨h v .self, fun part mem u inside => h u (.child mem inside)⟩
  · rintro ⟨here, below⟩ u inside
    cases inside with
    | self => exact here
    | child mem inside => exact below _ mem u inside

theorem Everywhere.here {p : Value → Prop} {v : Value} (h : Everywhere p v) : p v := h v .self

theorem Everywhere.child {p : Value → Prop} {v part : Value} (h : Everywhere p v)
    (mem : part ∈ v.children) : Everywhere p part :=
  (everywhere_iff.mp h).2 part mem

theorem everywhere_array {p : Value → Prop} {items : List Value} :
    Everywhere p (.array items) ↔ p (.array items) ∧ ∀ item ∈ items, Everywhere p item :=
  everywhere_iff

theorem everywhere_object {p : Value → Prop} {fields : Entries Value} :
    Everywhere p (.object fields) ↔
      p (.object fields) ∧ ∀ field ∈ fields, Everywhere p field.2 := by
  rw [everywhere_iff, children, List.forall_mem_map]

/-- A value without parts. -/
theorem everywhere_leaf {p : Value → Prop} {v : Value} (leaf : v.children = []) :
    Everywhere p v ↔ p v := by
  rw [everywhere_iff, leaf]
  simp

theorem Inside.of_leaves {u : Value} {items : List Value} (inside : Inside u (.array items))
    (leaves : ∀ item ∈ items, item.children = []) : u = .array items ∨ u ∈ items := by
  cases inside with
  | self => exact Or.inl rfl
  | child mem inside =>
    cases inside with
    | self => exact Or.inr mem
    | child below =>
      rw [leaves _ mem] at below
      cases below

/-- No table inside has a key twice. -/
def Distinct (v : Value) : Prop := ∀ fields, Inside (.object fields) v → Entries.Distinct fields

/-- `Distinct`, for one value inside. -/
def Tabular : Value → Prop
  | .object fields => Entries.Distinct fields
  | _ => True

theorem distinct_iff {v : Value} : v.Distinct ↔ Everywhere Tabular v := by
  constructor
  · intro h u inside
    cases u with
    | object fields => exact h fields inside
    | _ => trivial
  · exact fun h fields inside => h _ inside

theorem Distinct.child {v part : Value} (h : v.Distinct) (mem : part ∈ v.children) :
    part.Distinct :=
  fun fields inside => h fields (.child mem inside)

end Value

end JsonQuery
