import JsonQuery.Proofs.Query.WellFormed
import JsonQuery.Proofs.Value.Inside
import JsonQuery.Query.Expression

/-!
# What evaluation preserves

`Kept p` says that the operators make only values that satisfy `p`, given operands that do. Then all
that is inside a result satisfies `p` if all that is inside the input and the constants does
(`keeps_evaluate`).
-/

namespace JsonQuery.Query

open Value (Everywhere everywhere_array everywhere_object everywhere_leaf)

/-- What the operators ask of a property of values. They make integers from zero on or upwards from
another one, tables in key order, and tables with the keys of another one. -/
structure Kept (p : Value → Prop) : Prop where
  null : p .null
  boolean (b : Bool) : p (.boolean b)
  string (s : String) : p (.string s)
  array (items : List Value) : p (.array items)
  zero : p (.integer 0)
  above {first n : Int64} (le : first ≤ n) (h : p (.integer first)) : p (.integer n)
  ascending {fields : Entries Value} (h : fields.Ascending) : p (.object fields)
  sameKeys {fields others : Entries Value} (same : others.keys = fields.keys)
    (h : p (.object fields)) : p (.object others)

/-- What all parts of an operand satisfy, all parts of the result do. -/
def Keeps (p : Value → Prop) (f : Value → Result Value) : Prop :=
  ∀ ⦃v w : Value⦄, Everywhere p v → f v = .ok w → Everywhere p w

namespace Kept

variable {p : Value → Prop}

theorem everywhere_null (kept : Kept p) : Everywhere p .null := (everywhere_leaf rfl).mpr kept.null

theorem everywhere_boolean (kept : Kept p) (b : Bool) : Everywhere p (.boolean b) :=
  (everywhere_leaf rfl).mpr (kept.boolean b)

theorem everywhere_string (kept : Kept p) (s : String) : Everywhere p (.string s) :=
  (everywhere_leaf rfl).mpr (kept.string s)

theorem everywhere_items (kept : Kept p) {items : List Value}
    (h : ∀ item ∈ items, Everywhere p item) : Everywhere p (.array items) :=
  everywhere_array.mpr ⟨kept.array items, h⟩

end Kept

section

variable {p : Value → Prop} {input w : Value}

/-! ### Positions -/

/-- Everything that positions can address satisfies `p`. -/
def Parts.Everywhere (p : Value → Prop) : Parts → Prop
  | .items values => ∀ item ∈ values.toList, Value.Everywhere p item
  | .fields entries => ∀ field ∈ entries, Value.Everywhere p field.2
  | .none _ => True

theorem everywhere_partsOf (h : Everywhere p input) : (partsOf input).Everywhere p := by
  cases input with
  | array items => exact (everywhere_array.mp h).2
  | object fields => exact (everywhere_object.mp h).2
  | _ => trivial

theorem everywhere_address (kept : Kept p) {leaf : Value → Result Value}
    (keeps : Keeps p leaf) {parts : Parts}
    (h : parts.Everywhere p) {position : Value} (ok : address leaf parts position = .ok w) :
    Everywhere p w := by
  unfold address at ok
  split at ok
  · split at ok
    case h_1 index items =>
      split at ok
      case h_1 item found =>
        unfold item? at found
        split at found
        case isTrue =>
          exact keeps (h item (Array.mem_toList_iff.mpr (Array.mem_of_getElem? found))) ok
        case isFalse => cases found
      case h_2 =>
        cases ok
        exact kept.everywhere_null
    · cases ok
  · split at ok
    case h_1 field fields =>
      split at ok
      case h_1 value found => exact keeps (h _ (Entries.mem_of_find? found)) ok
      case h_2 =>
        cases ok
        exact kept.everywhere_null
    · cases ok
  · cases ok

theorem keys_of_resolveFields {leaf : Value → Result Value} {parts : Parts}
    {positions fields : Entries Value} (ok : resolveFields leaf parts positions = .ok fields) :
    fields.keys = positions.keys := by
  induction positions generalizing fields with
  | nil =>
    cases ok
    rfl
  | cons field rest ih =>
    rw [resolveFields] at ok
    obtain ⟨value, -, ok⟩ := bind_eq_ok_iff.mp ok
    obtain ⟨others, more, ok⟩ := bind_eq_ok_iff.mp ok
    cases ok
    exact congrArg (field.1 :: ·) (ih more)

mutual

theorem everywhere_resolve (kept : Kept p) {leaf : Value → Result Value}
    (keeps : Keeps p leaf) {parts : Parts}
    (h : parts.Everywhere p) (position : Value) (hp : Everywhere p position) {w : Value}
    (ok : resolve leaf parts position = .ok w) : Everywhere p w := by
  match position with
  | .array positions =>
    rw [resolve] at ok
    obtain ⟨items, resolved, ok⟩ := bind_eq_ok_iff.mp ok
    cases ok
    exact kept.everywhere_items
      (everywhere_resolveItems kept keeps h positions (everywhere_array.mp hp).2 resolved)
  | .object positions =>
    rw [resolve] at ok
    obtain ⟨fields, resolved, ok⟩ := bind_eq_ok_iff.mp ok
    cases ok
    exact everywhere_object.mpr ⟨kept.sameKeys (keys_of_resolveFields resolved) hp.here,
      everywhere_resolveFields kept keeps h positions (everywhere_object.mp hp).2 resolved⟩
  | .null | .boolean _ | .float _ | .integer _ | .string _ =>
    rw [resolve] at ok
    · exact everywhere_address kept keeps h ok
    · exact nofun
    · exact nofun

theorem everywhere_resolveItems (kept : Kept p) {leaf : Value → Result Value}
    (keeps : Keeps p leaf) {parts : Parts}
    (h : parts.Everywhere p) (positions : List Value)
    (hp : ∀ position ∈ positions, Everywhere p position) {items : List Value}
    (ok : resolveItems leaf parts positions = .ok items) : ∀ item ∈ items, Everywhere p item := by
  match positions with
  | [] =>
    cases ok
    exact nofun
  | position :: rest =>
    rw [resolveItems] at ok
    obtain ⟨value, first, ok⟩ := bind_eq_ok_iff.mp ok
    obtain ⟨others, more, ok⟩ := bind_eq_ok_iff.mp ok
    cases ok
    obtain ⟨here, there⟩ := List.forall_mem_cons.mp hp
    exact List.forall_mem_cons.mpr ⟨everywhere_resolve kept keeps h position here first,
      everywhere_resolveItems kept keeps h rest there more⟩

theorem everywhere_resolveFields (kept : Kept p) {leaf : Value → Result Value}
    (keeps : Keeps p leaf) {parts : Parts}
    (h : parts.Everywhere p) (positions : List (String × Value))
    (hp : ∀ field ∈ positions, Everywhere p field.2) {fields : Entries Value}
    (ok : resolveFields leaf parts positions = .ok fields) :
    ∀ field ∈ fields, Everywhere p field.2 := by
  match positions with
  | [] =>
    cases ok
    exact nofun
  | (key, position) :: rest =>
    rw [resolveFields] at ok
    obtain ⟨value, first, ok⟩ := bind_eq_ok_iff.mp ok
    obtain ⟨others, more, ok⟩ := bind_eq_ok_iff.mp ok
    cases ok
    obtain ⟨here, there⟩ := List.forall_mem_cons.mp hp
    exact List.forall_mem_cons.mpr ⟨everywhere_resolve kept keeps h position here first,
      everywhere_resolveFields kept keeps h rest there more⟩

end

/-! ### Operators -/

theorem everywhere_keysOf (kept : Kept p) (ok : keysOf input = .ok w) : Everywhere p w := by
  unfold keysOf at ok
  split at ok
  · split at ok
    case isTrue items few =>
      cases ok
      refine kept.everywhere_items (List.forall_mem_map.mpr fun index mem => ?_)
      have small : index < 2 ^ 63 := Nat.lt_of_lt_of_le (List.mem_range.mp mem) few
      refine (everywhere_leaf rfl).mpr (kept.above ?_ kept.zero)
      rw [Int64.le_iff_toInt_le, Int64.toInt_ofNat_of_lt small, Int64.toInt_zero]
      exact Int.natCast_nonneg index
    · cases ok
  · cases ok
    exact kept.everywhere_items (List.forall_mem_map.mpr fun key _ => kept.everywhere_string key)
  · cases ok

theorem everywhere_rangeOf [Platform] (kept : Kept p) {first last : Int64}
    (h : p (.integer first)) (ok : rangeOf first last = .ok w) : Everywhere p w := by
  unfold rangeOf at ok
  dsimp only at ok
  split at ok
  · cases ok
    exact kept.everywhere_items nofun
  split at ok
  · cases ok
    refine kept.everywhere_items (List.forall_mem_map.mpr fun index mem => ?_)
    have within := List.mem_range.mp mem
    have low := Int64.le_toInt first
    have high := Int64.toInt_lt last
    refine (everywhere_leaf rfl).mpr (kept.above ?_ h)
    rw [Int64.le_iff_toInt_le, Int64.toInt_ofInt_of_le (by omega) (by omega)]
    omega
  · cases ok

theorem integer_of_rangeBound {bound : Bound} {v : Value} {n : Int64}
    (ok : rangeBound bound v = .ok n) : v = .integer n := by
  unfold rangeBound at ok
  split at ok
  · cases ok
    rfl
  · cases ok

theorem everywhere_filterItems {condition transform : Value → Result Value}
    (keeps : Keeps p transform)
    {items kept : List Value} (h : ∀ item ∈ items, Everywhere p item)
    (ok : filterItems condition transform items = .ok kept) : ∀ item ∈ kept, Everywhere p item := by
  induction items generalizing kept with
  | nil =>
    cases ok
    exact nofun
  | cons item rest ih =>
    obtain ⟨here, there⟩ := List.forall_mem_cons.mp h
    rw [filterItems] at ok
    obtain ⟨verdict, -, ok⟩ := bind_eq_ok_iff.mp ok
    split at ok
    · obtain ⟨value, transformed, ok⟩ := bind_eq_ok_iff.mp ok
      obtain ⟨others, more, ok⟩ := bind_eq_ok_iff.mp ok
      cases ok
      exact List.forall_mem_cons.mpr ⟨keeps here transformed, ih there more⟩
    · exact ih there ok

theorem everywhere_joinItems (kept : Kept p) (separator : String) (v : Value) :
    Everywhere p (joinItems separator v) := by
  cases v <;> exact kept.everywhere_string _

end

/-! ### Expressions -/

namespace Expression

variable [Platform] {p : Value → Prop} {input w : Value}

theorem boolean_of_evaluateAnd {operands : List Expression}
    (ok : evaluateAnd operands input = .ok w) : ∃ b, w = .boolean b := by
  induction operands with
  | nil =>
    cases ok
    exact ⟨true, rfl⟩
  | cons operand rest ih =>
    rw [evaluateAnd] at ok
    obtain ⟨value, -, ok⟩ := bind_eq_ok_iff.mp ok
    split at ok
    · exact ih ok
    · cases ok
      exact ⟨false, rfl⟩

theorem boolean_of_evaluateOr {operands : List Expression}
    (ok : evaluateOr operands input = .ok w) : ∃ b, w = .boolean b := by
  induction operands with
  | nil =>
    cases ok
    exact ⟨false, rfl⟩
  | cons operand rest ih =>
    rw [evaluateOr] at ok
    obtain ⟨value, -, ok⟩ := bind_eq_ok_iff.mp ok
    split at ok
    · cases ok
      exact ⟨true, rfl⟩
    · exact ih ok

theorem everywhere_evaluateAll {es : List Expression} (keeps : ∀ e ∈ es, Keeps p e.evaluate)
    (h : Everywhere p input) {values : List Value} (ok : evaluateAll es input = .ok values) :
    ∀ value ∈ values, Everywhere p value := by
  induction es generalizing values with
  | nil =>
    cases ok
    exact nofun
  | cons e rest ih =>
    obtain ⟨here, there⟩ := List.forall_mem_cons.mp keeps
    rw [evaluateAll] at ok
    obtain ⟨value, first, ok⟩ := bind_eq_ok_iff.mp ok
    obtain ⟨others, more, ok⟩ := bind_eq_ok_iff.mp ok
    cases ok
    exact List.forall_mem_cons.mpr ⟨here h first, ih there more⟩

theorem everywhere_evaluatePairs {pairs : List (Expression × Expression)}
    (keeps : ∀ pair ∈ pairs, Keeps p pair.2.evaluate) (h : Everywhere p input) {index : Nat}
    {writes : List (String × Value)} (ok : evaluatePairs index pairs input = .ok writes) :
    ∀ write ∈ writes, Everywhere p write.2 := by
  induction pairs generalizing index writes with
  | nil =>
    cases ok
    exact nofun
  | cons pair rest ih =>
    obtain ⟨here, there⟩ := List.forall_mem_cons.mp keeps
    rw [evaluatePairs] at ok
    obtain ⟨name, -, ok⟩ := bind_eq_ok_iff.mp ok
    split at ok
    · obtain ⟨value, first, ok⟩ := bind_eq_ok_iff.mp ok
      obtain ⟨others, more, ok⟩ := bind_eq_ok_iff.mp ok
      cases ok
      exact List.forall_mem_cons.mpr ⟨here h first, ih there more⟩
    · cases ok

theorem keeps_evaluatePipe {inner : List Expression} (keeps : ∀ e ∈ inner, Keeps p e.evaluate) :
    Keeps p (evaluatePipe inner) := by
  intro input w h ok
  induction inner generalizing input with
  | nil =>
    cases ok
    exact h
  | cons e rest ih =>
    obtain ⟨here, there⟩ := List.forall_mem_cons.mp keeps
    rw [evaluatePipe] at ok
    obtain ⟨value, first, ok⟩ := bind_eq_ok_iff.mp ok
    exact ih there (here h first) ok

theorem keeps_element (kept : Kept p) {positions leaf : Expression}
    (located : Keeps p positions.evaluate) (keeps : Keeps p leaf.evaluate) :
    Keeps p (element positions leaf).evaluate := by
  intro input w h ok
  -- on a constructor `evaluate` computes, so its binds need no unfolding here and below
  obtain ⟨where_, positioned, ok⟩ := bind_eq_ok_iff.mp ok
  exact everywhere_resolve kept keeps (everywhere_partsOf h) where_ (located h positioned) ok

theorem keeps_array (kept : Kept p) {items : List Expression}
    (keeps : ∀ e ∈ items, Keeps p e.evaluate) : Keeps p (array items).evaluate := by
  intro input w h ok
  obtain ⟨values, evaluated, ok⟩ := bind_eq_ok_iff.mp ok
  cases ok
  exact kept.everywhere_items (everywhere_evaluateAll keeps h evaluated)

theorem keeps_object (kept : Kept p) {pairs : List (Expression × Expression)}
    (keeps : ∀ pair ∈ pairs, Keeps p pair.2.evaluate) : Keeps p (object pairs).evaluate := by
  intro input w h ok
  obtain ⟨writes, evaluated, ok⟩ := bind_eq_ok_iff.mp ok
  cases ok
  have values := everywhere_evaluatePairs keeps h evaluated
  refine everywhere_object.mpr ⟨kept.ascending (Entries.ascending_ofWrites writes), ?_⟩
  exact fun field mem => values field (Entries.mem_of_mem_ofWrites mem)

theorem keeps_sprintf (kept : Kept p) (template : Expression) (args : List Expression) :
    Keeps p (sprintf template args).evaluate := by
  intro input w _ ok
  obtain ⟨value, -, ok⟩ := bind_eq_ok_iff.mp ok
  cases value with
  | string s =>
    obtain ⟨values, -, ok⟩ := bind_eq_ok_iff.mp ok
    cases ok
    exact kept.everywhere_string _
  | _ => cases ok

theorem keeps_join (kept : Kept p) (items separator : Expression) :
    Keeps p (join items separator).evaluate := by
  intro input w _ ok
  obtain ⟨value, -, ok⟩ := bind_eq_ok_iff.mp ok
  cases value with
  | string s =>
    obtain ⟨joined, -, ok⟩ := bind_eq_ok_iff.mp ok
    cases ok
    exact everywhere_joinItems kept s joined
  | _ => cases ok

theorem keeps_filter (kept : Kept p) (condition : Expression) {transform : Expression}
    (keeps : Keeps p transform.evaluate) : Keeps p (filter condition transform).evaluate := by
  intro input w h ok
  cases input with
  | array items =>
    obtain ⟨values, filtered, ok⟩ := bind_eq_ok_iff.mp ok
    cases ok
    have inside := (everywhere_array.mp h).2
    exact kept.everywhere_items (everywhere_filterItems keeps inside filtered)
  | _ => cases ok

theorem keeps_range (kept : Kept p) {first : Expression} (keeps : Keeps p first.evaluate)
    (last : Expression) : Keeps p (range first last).evaluate := by
  intro input w h ok
  obtain ⟨value, evaluated, ok⟩ := bind_eq_ok_iff.mp ok
  obtain ⟨low, isLow, ok⟩ := bind_eq_ok_iff.mp ok
  obtain ⟨bound, -, ok⟩ := bind_eq_ok_iff.mp ok
  obtain ⟨high, -, ranged⟩ := bind_eq_ok_iff.mp ok
  have start : Everywhere p value := keeps h evaluated
  rw [integer_of_rangeBound isLow] at start
  exact everywhere_rangeOf kept start.here ranged

theorem keeps_ifThenElse (condition : Expression) {thenBranch elseBranch : Expression}
    (one : Keeps p thenBranch.evaluate) (other : Keeps p elseBranch.evaluate) :
    Keeps p (ifThenElse condition thenBranch elseBranch).evaluate := by
  intro input w h ok
  obtain ⟨value, -, ok⟩ := bind_eq_ok_iff.mp ok
  split at ok
  · exact one h ok
  · exact other h ok

theorem keeps_recover (kept : Kept p) {body : Expression} (keeps : Keeps p body.evaluate) :
    Keeps p (recover body).evaluate := by
  intro input w h ok
  rw [evaluate] at ok
  split at ok
  case h_1 value evaluated =>
    cases ok
    exact keeps h evaluated
  case h_2 =>
    cases ok
    exact kept.everywhere_null

/-- All that is inside a result satisfies what the operators keep. -/
theorem keeps_evaluate (kept : Kept p) (e : Expression) (constants : e.Constants (Everywhere p)) :
    Keeps p e.evaluate := by
  induction e using induction_parts with
  | whole e ih =>
    have keeps {part : Expression} (mem : part ∈ e.parts) : Keeps p part.evaluate :=
      ih part mem (constants.part mem)
    cases e with
    | constant value =>
      intro input w _ ok
      cases ok
      exact constants_constant.mp constants
    | identity =>
      intro input w h ok
      cases ok
      exact h
    | keys => exact fun input w _ ok => everywhere_keysOf kept ok
    | element positions leaf => exact keeps_element kept (keeps (by simp)) (keeps (by simp))
    | array items => exact keeps_array kept fun e mem => keeps (by simp [mem])
    | object pairs => exact keeps_object kept fun pair mem => keeps (mem_parts_object mem).2
    | pipe inner =>
      intro input w h ok
      exact keeps_evaluatePipe (fun stage mem => keeps (by simp [mem])) h ok
    | sprintf template args => exact keeps_sprintf kept template args
    | join items separator => exact keeps_join kept items separator
    | filter condition transform => exact keeps_filter kept condition (keeps (by simp))
    | range first last => exact keeps_range kept (keeps (by simp)) last
    | ifThenElse condition thenBranch elseBranch =>
      exact keeps_ifThenElse condition (keeps (by simp)) (keeps (by simp))
    | recover body => exact keeps_recover kept (keeps (by simp))
    | equal left right | compare _ left right =>
      intro input w _ ok
      obtain ⟨a, -, ok⟩ := bind_eq_ok_iff.mp ok
      obtain ⟨b, -, ok⟩ := bind_eq_ok_iff.mp ok
      cases ok
      exact kept.everywhere_boolean _
    | and operands =>
      intro input w _ ok
      obtain ⟨b, rfl⟩ := boolean_of_evaluateAnd ok
      exact kept.everywhere_boolean b
    | or operands =>
      intro input w _ ok
      obtain ⟨b, rfl⟩ := boolean_of_evaluateOr ok
      exact kept.everywhere_boolean b
    | not operand =>
      intro input w _ ok
      obtain ⟨value, -, ok⟩ := bind_eq_ok_iff.mp ok
      cases ok
      exact kept.everywhere_boolean _
    | error message =>
      intro input w _ ok
      obtain ⟨value, -, ok⟩ := bind_eq_ok_iff.mp ok
      cases ok

end Expression

/-! ### Compiled queries -/

theorem Kept.constants {p : Value → Prop} (kept : Kept p) {query : String} {e : Expression}
    (compiled : compile query = .ok e) : e.Constants (Everywhere p) :=
  constants_of_compile compiled kept.everywhere_null kept.everywhere_boolean
    kept.everywhere_string fun _ natural => (everywhere_leaf rfl).mpr (kept.above natural kept.zero)

theorem kept_tabular : Kept Value.Tabular where
  null := trivial
  boolean _ := trivial
  string _ := trivial
  array _ := trivial
  zero := trivial
  above _ _ := trivial
  ascending h := h.distinct
  sameKeys same h := by
    show List.Nodup _
    rw [same]
    exact h

/-- No table in a result has a key twice. -/
theorem distinct_of_evaluate [Platform] {query : String} {e : Expression}
    (compiled : compile query = .ok e) {v w : Value} (distinct : v.Distinct)
    (ok : e.evaluate v = .ok w) : w.Distinct :=
  Value.distinct_iff.mpr
    (e.keeps_evaluate kept_tabular (kept_tabular.constants compiled)
      (Value.distinct_iff.mp distinct) ok)

end JsonQuery.Query
