import JsonQuery.Proofs.Decimal.Comparison
import JsonQuery.Proofs.Value.Equality
import JsonQuery.Proofs.Value.Scalars

/-!
# Equality and order of values

Without NaN two values are structurally equal if and only if their canonical forms are the same, in
which there is one zero and the fields of all tables are in key order (`deepEq_iff_canonical`). So
structural equality is an equivalence and does not depend on the order of fields. Of two values one
is less than the other only if both are strings or both are numbers (`lessThan_iff`). That is a
strict order in which equal values are not apart (`compares_coherent`).
-/

namespace JsonQuery.Value

/-- `Comparable`, for one value inside. -/
def Definite : Value → Prop
  | .float x => x.isNaN = false
  | .object fields => Entries.Distinct fields
  | _ => True

/-- A value with no NaN at any depth, and with no key twice in a table. -/
def Comparable (v : Value) : Prop := Everywhere Definite v

/-! ### One zero -/

def unsignedZero (x : Float) : Float := if x == 0.0 then 0.0 else x

theorem beq_unsignedZero (x y : Float) : (unsignedZero x == unsignedZero y) = (x == y) := by
  have zero : ((0.0 : Float) == 0.0) = true := rfl
  unfold unsignedZero
  by_cases hx : (x == 0.0) = true
  · by_cases hy : (y == 0.0) = true
    · rw [if_pos hx, if_pos hy, zero, beq_float_trans hx (beq_float_symm hy)]
    · rw [if_pos hx, if_neg hy, Bool.eq_iff_iff]
      constructor
      · exact fun same => absurd (beq_float_symm same) hy
      · exact fun same => absurd (beq_float_trans (beq_float_symm same) hx) hy
  · by_cases hy : (y == 0.0) = true
    · rw [if_neg hx, if_pos hy, Bool.eq_iff_iff]
      constructor
      · exact fun same => absurd same hx
      · exact fun same => absurd (beq_float_trans same hy) hx
    · rw [if_neg hx, if_neg hy]

theorem plain_unsignedZero {x : Float} (number : x.isNaN = false) :
    Plain (.float (unsignedZero x)) := by
  unfold unsignedZero
  split
  case isTrue => exact ⟨rfl, by decide⟩
  case isFalse other =>
    refine ⟨number, ?_⟩
    rintro rfl
    exact other rfl

/-- A scalar, with one zero in the place of both. -/
def unsigned : Value → Value
  | .float x => .float (unsignedZero x)
  | v => v

mutual

/-- Structural equality does not see the sign of zeros. -/
theorem deepEq_unsigned (a b : Value) :
    (a.mapScalars unsigned).deepEq (b.mapScalars unsigned) = a.deepEq b := by
  match a with
  | .array xs =>
    cases b with
    | array ys => exact deepEqItems_unsigned xs ys
    | _ => rfl
  | .object xs =>
    cases b with
    | object ys =>
      rw [mapScalars, mapScalars, deepEq, deepEq, deepEqFields_unsigned xs ys, mapScalarsFields_eq,
        mapScalarsFields_eq, Entries.mapValues, Entries.mapValues, List.length_map, List.length_map]
    | _ => rfl
  | .float x =>
    cases b with
    | float y => exact beq_unsignedZero x y
    | _ => rfl
  | .null | .boolean _ | .integer _ | .string _ => cases b <;> rfl

theorem deepEqItems_unsigned (xs ys : List Value) :
    deepEqItems (mapScalarsItems unsigned xs) (mapScalarsItems unsigned ys) =
      deepEqItems xs ys := by
  match xs, ys with
  | [], [] | [], _ :: _ | _ :: _, [] => rfl
  | x :: xs, y :: ys =>
    rw [mapScalarsItems, mapScalarsItems, deepEqItems, deepEqItems, deepEq_unsigned x y,
      deepEqItems_unsigned xs ys]

theorem deepEqFields_unsigned (xs ys : List (String × Value)) :
    deepEqFields (mapScalarsFields unsigned xs) (mapScalarsFields unsigned ys) =
      deepEqFields xs ys := by
  match xs with
  | [] => rfl
  | (key, x) :: xs =>
    have found : Entries.find? key (mapScalarsFields unsigned ys) =
        (Entries.find? key ys).map (mapScalars unsigned) := by
      rw [mapScalarsFields_eq, Entries.find?_mapValues]
    rw [mapScalarsFields, deepEqFields, deepEqFields, deepEqFields_unsigned xs ys, found]
    cases Entries.find? key ys with
    | none => rfl
    | some y =>
      dsimp only [Option.map_some]
      rw [deepEq_unsigned x y]

end

theorem regular_unsigned {v : Value} (h : v.Comparable) : Regular (v.mapScalars unsigned) := by
  have leaf {u : Value} (none : u.children = []) (plain : u.Plain) : Regular u :=
    (everywhere_leaf none).mpr plain
  induction v using induction_children with
  | whole v ih =>
    cases v with
    | array items =>
      rw [mapScalars_array]
      refine everywhere_array.mpr ⟨trivial, List.forall_mem_map.mpr fun item mem => ?_⟩
      exact ih item mem (h.child mem)
    | object fields =>
      have distinct : Entries.Distinct fields := h.here
      rw [mapScalars_object]
      refine everywhere_object.mpr ⟨distinct.mapValues, List.forall_mem_map.mpr fun field mem => ?_⟩
      have inside : field.2 ∈ (object fields).children := List.mem_map_of_mem mem
      exact ih field.2 inside (h.child inside)
    | float x => exact leaf rfl (plain_unsignedZero h.here)
    | _ => exact leaf rfl trivial

/-! ### Structural equality -/

/-- The value with one zero, and the fields of all its tables in key order. -/
def canonical (v : Value) : Value := (v.mapScalars unsigned).sorted

theorem deepEq_iff_canonical {a b : Value} (ha : a.Comparable) (hb : b.Comparable) :
    a.deepEq b = true ↔ a.canonical = b.canonical := by
  rw [← deepEq_unsigned a b]
  exact deepEq_iff _ (regular_unsigned ha) _ (regular_unsigned hb)

theorem canonical_congr {a b : Value} (same : a.sorted = b.sorted) : a.canonical = b.canonical := by
  rw [canonical, canonical, sorted_mapScalars, sorted_mapScalars, same]

/-! ### Order -/

def isNumber : Value → Bool
  | .integer _ | .float _ => true
  | _ => false

theorem isNumber_of_asFloat? {v : Value} {x : Float} (h : v.asFloat? = some x) :
    v.isNumber = true := by
  cases v with
  | integer | float => rfl
  | _ => cases h

theorem greaterThan_eq (a b : Value) : a.compares .greaterThan b = b.compares .lessThan a := by
  cases a <;> cases b <;>
    simp only [compares, asFloat?, Comparison.ofStrings, Comparison.ofFloats]

/-- Strings compare with strings, and numbers with numbers of either kind. -/
theorem lessThan_iff {a b : Value} :
    a.compares .lessThan b = true ↔
      (∃ s t, a = .string s ∧ b = .string t ∧ s < t) ∨
      ∃ x y, a.asFloat? = some x ∧ b.asFloat? = some y ∧ x < y := by
  unfold compares
  split
  case h_1 s t => simp [Comparison.ofStrings, asFloat?]
  case h_2 other =>
    have strings : ¬∃ s t, a = .string s ∧ b = .string t ∧ s < t := by
      rintro ⟨s, t, left, right, -⟩
      exact other s t left right
    rw [or_iff_right strings]
    cases a.asFloat? <;> cases b.asFloat? <;> simp [Comparison.ofFloats]

theorem lessThan_irrefl (a : Value) : a.compares .lessThan a = false := by
  rw [Bool.eq_false_iff]
  intro less
  rcases lessThan_iff.mp less with ⟨s, t, left, right, front⟩ | ⟨x, y, left, right, front⟩
  · cases left.symm.trans right
    exact String.lt_irrefl s front
  · cases left.symm.trans right
    exact lt_float_irrefl x front

theorem lessThan_trans {a b c : Value} (ab : a.compares .lessThan b = true)
    (bc : b.compares .lessThan c = true) : a.compares .lessThan c = true := by
  apply lessThan_iff.mpr
  rcases lessThan_iff.mp ab with ⟨s, t, rfl, rfl, first⟩ | ⟨x, y, hx, hy, first⟩
  · rcases lessThan_iff.mp bc with ⟨t', u, same, rfl, second⟩ | ⟨y, z, hy, -⟩
    · cases same
      exact .inl ⟨s, u, rfl, rfl, String.lt_trans first second⟩
    · cases hy
  · rcases lessThan_iff.mp bc with ⟨t, u, rfl, -⟩ | ⟨y', z, hy', hz, second⟩
    · cases hy
    · cases hy.symm.trans hy'
      exact .inr ⟨x, z, hx, hz, lt_float_trans first second⟩

/-- Numbers that are equal are of one kind, and have the same place in the order. -/
theorem not_lt_of_deepEq {a b : Value} {x y : Float} (equal : a.deepEq b = true)
    (hx : a.asFloat? = some x) (hy : b.asFloat? = some y) : ¬x < y ∧ ¬y < x := by
  cases a with
  | integer m =>
    cases b with
    | integer n =>
      obtain rfl : m = n := beq_iff_eq.mp equal
      cases hx.symm.trans hy
      exact ⟨lt_float_irrefl x, lt_float_irrefl x⟩
    | _ => cases equal
  | float u =>
    cases b with
    | float w =>
      cases hx
      cases hy
      exact ⟨not_lt_float_of_beq equal, not_lt_float_of_beq (beq_float_symm equal)⟩
    | _ => cases equal
  | _ => cases hx

theorem not_lessThan_of_deepEq {a b : Value} (equal : a.deepEq b = true) :
    a.compares .lessThan b = false ∧ b.compares .lessThan a = false := by
  have strings {s t : String} (left : a = .string s) (right : b = .string t) : s = t := by
    subst left right
    exact beq_iff_eq.mp equal
  rw [Bool.eq_false_iff, Bool.eq_false_iff]
  constructor
  · intro less
    rcases lessThan_iff.mp less with ⟨s, t, left, right, front⟩ | ⟨x, y, hx, hy, front⟩
    · exact String.lt_irrefl t (strings left right ▸ front)
    · exact (not_lt_of_deepEq equal hx hy).1 front
  · intro less
    rcases lessThan_iff.mp less with ⟨t, s, right, left, front⟩ | ⟨y, x, hy, hx, front⟩
    · exact String.lt_irrefl t (strings left right ▸ front)
    · exact (not_lt_of_deepEq equal hx hy).2 front

theorem strings_trichotomy (s t : String) :
    s < t ∧ ¬t < s ∧ s ≠ t ∨ ¬s < t ∧ t < s ∧ s ≠ t ∨ ¬s < t ∧ ¬t < s ∧ s = t := by
  by_cases less : s < t
  · refine .inl ⟨less, String.lt_asymm less, ?_⟩
    rintro rfl
    exact String.lt_irrefl s less
  by_cases same : s = t
  · subst same
    exact .inr (.inr ⟨less, less, rfl⟩)
  · exact .inr (.inl ⟨less, Entries.lt_of_not_lt_of_ne less same, same⟩)

/-- Structural equality of values without NaN is an equivalence that does not depend on the order of
fields. `gt` is `lt` the other way round, and `lt` is a strict order, in which integers and floats
are mixed. Values that are equal are neither less nor greater, of two strings that are not equal one
is less, and all values that are neither both strings nor both numbers are unordered. -/
theorem compares_coherent :
    (∀ a : Value, a.Comparable → a.deepEq a = true) ∧
    (∀ a b : Value, a.Comparable → b.Comparable → a.deepEq b = true → b.deepEq a = true) ∧
    (∀ a b c : Value, a.Comparable → b.Comparable → c.Comparable →
      a.deepEq b = true → b.deepEq c = true → a.deepEq c = true) ∧
    (∀ a b c : Value, a.Comparable → b.Comparable → c.Comparable → a.sorted = b.sorted →
      a.deepEq b = true ∧ a.deepEq c = b.deepEq c ∧ c.deepEq a = c.deepEq b) ∧
    (∀ a b : Value, a.compares .greaterThan b = b.compares .lessThan a) ∧
    (∀ a : Value, a.compares .lessThan a = false) ∧
    (∀ a b c : Value, a.compares .lessThan b = true → b.compares .lessThan c = true →
      a.compares .lessThan c = true) ∧
    (∀ a b : Value, a.deepEq b = true →
      a.compares .lessThan b = false ∧ a.compares .greaterThan b = false) ∧
    (∀ s t : String,
      let less := (string s).compares .lessThan (string t)
      let greater := (string s).compares .greaterThan (string t)
      let equal := (string s).deepEq (string t)
      less = true ∧ greater = false ∧ equal = false ∨
        less = false ∧ greater = true ∧ equal = false ∨
        less = false ∧ greater = false ∧ equal = true) ∧
    ∀ a b : Value, a.compares .lessThan b = true →
      (∃ s t, a = .string s ∧ b = .string t) ∨ a.isNumber = true ∧ b.isNumber = true := by
  refine ⟨?reflexive, ?symmetric, ?transitive, ?orders, greaterThan_eq, lessThan_irrefl,
    fun a b c => lessThan_trans, ?equal, ?strings, ?kinds⟩
  case reflexive =>
    intro a ha
    exact (deepEq_iff_canonical ha ha).mpr rfl
  case symmetric =>
    intro a b ha hb equal
    rw [deepEq_iff_canonical ha hb] at equal
    exact (deepEq_iff_canonical hb ha).mpr equal.symm
  case transitive =>
    intro a b c ha hb hc ab bc
    rw [deepEq_iff_canonical ha hb] at ab
    rw [deepEq_iff_canonical hb hc] at bc
    exact (deepEq_iff_canonical ha hc).mpr (ab.trans bc)
  case orders =>
    intro a b c ha hb hc same
    have forms := canonical_congr same
    refine ⟨(deepEq_iff_canonical ha hb).mpr forms, ?_, ?_⟩
    · rw [Bool.eq_iff_iff, deepEq_iff_canonical ha hc, deepEq_iff_canonical hb hc, forms]
    · rw [Bool.eq_iff_iff, deepEq_iff_canonical hc ha, deepEq_iff_canonical hc hb, forms]
  case equal =>
    intro a b equal
    rw [greaterThan_eq]
    exact not_lessThan_of_deepEq equal
  case strings =>
    intro s t
    have cases := strings_trichotomy s t
    simpa [compares, Comparison.ofStrings, deepEq] using cases
  case kinds =>
    intro a b less
    rcases lessThan_iff.mp less with ⟨s, t, left, right, -⟩ | ⟨x, y, left, right, -⟩
    · exact .inl ⟨s, t, left, right⟩
    · exact .inr ⟨isNumber_of_asFloat? left, isNumber_of_asFloat? right⟩

/-- A table with one of the zeros in it, in two orders. -/
def withZero (swap : Bool) (x : Float) : Value :=
  let fields : Entries Value := [("n", .integer 1), ("x", .array [.float x])]
  .object (if swap then fields.reverse else fields)

theorem comparable_withZero (swap : Bool) {x : Float} (number : x.isNaN = false) :
    (withZero swap x).Comparable := by
  have integer : Everywhere Definite (.integer 1) := (everywhere_leaf rfl).mpr trivial
  have float : Everywhere Definite (.float x) := (everywhere_leaf rfl).mpr number
  cases swap <;>
    simp [withZero, Comparable, everywhere_object, everywhere_array, Definite, Entries.Distinct,
      Entries.keys, integer, float]

theorem sorted_withZero {x : Float} (number : x.isNaN = false) :
    (withZero false x).sorted = (withZero true x).sorted := by
  have distinct : Entries.Distinct [("n", integer 1), ("x", array [float x])] :=
    (comparable_withZero false number).here
  have tables := (Entries.sorted_eq_iff distinct (distinct.perm (List.reverse_perm _).symm)).mpr
    (List.reverse_perm _).symm
  rw [withZero, withZero, sorted_object, sorted_object]
  exact congrArg (fun table => object (Entries.mapValues sorted table)) tables

/-- Two tables that differ in the order of their fields and in the sign of a zero. -/
theorem compares_coherent_zeros :
    (withZero false 0.0).deepEq (withZero true (-0.0)) = true ∧
      (withZero false 0.0).compares .lessThan (withZero true (-0.0)) = false ∧
      (integer 1).compares .lessThan (integer 2) = true := by
  obtain ⟨-, -, trans, orders, -, -, chain, equal, -⟩ := compares_coherent
  have ha : (withZero false 0.0).Comparable := comparable_withZero false rfl
  have hb : (withZero true 0.0).Comparable := comparable_withZero true rfl
  have hc : (withZero true (-0.0)).Comparable := comparable_withZero true rfl
  have ab := (orders _ _ _ ha hb hc (sorted_withZero rfl)).1
  have ac := trans _ _ _ ha hb hc ab rfl
  exact ⟨ac, (equal _ _ ac).1, chain _ (float 1.5) _ rfl rfl⟩

end JsonQuery.Value
