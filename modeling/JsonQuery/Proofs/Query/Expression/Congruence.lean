import JsonQuery.Proofs.Query.Expression.Positions

/-!
# Evaluation does not see the order of fields

Every operator respects the order of fields if its operands do (`respects_evaluate`). So a query
makes the same of structurally equal values (`evaluate_congr`).
-/

namespace JsonQuery.Query

open Value (Regular sorted sortedItems sortedFields)

theorem kept_plain : Kept Value.Plain where
  null := trivial
  boolean _ := trivial
  string _ := trivial
  array _ := trivial
  zero := trivial
  above _ _ := trivial
  ascending h := h.distinct
  sameKeys same h := by
    show List.Nodup _
    rw [same]
    exact h

theorem eq_string_of_sorted {v : Value} {s : String} (h : (Value.string s).sorted = v.sorted) :
    v = .string s := by
  cases v <;> simp_all [sorted]

theorem isTruthy_eq {v w : Value} (h : v.sorted = w.sorted) : v.isTruthy = w.isTruthy := by
  rw [← Value.isTruthy_sorted, h, Value.isTruthy_sorted]

theorem text_eq {v w : Value} (h : v.sorted = w.sorted) : v.text = w.text := by
  rw [← Value.text_sorted, h, Value.text_sorted]

/-! ### Operators -/

theorem keysOf_eq {a b : Value} (same : a.sorted = b.sorted) : keysOf a = keysOf b := by
  have one (v : Value) : keysOf v.sorted = keysOf v := by
    cases v with
    | array items => simp [Value.sorted_array, keysOf]
    | object fields =>
      rw [Value.sorted_object, keysOf, keysOf, Entries.sorted_mapValues, Entries.sorted_sorted,
        Entries.keys_mapValues]
    | _ => rfl
  rw [← one a, same, one]

theorem joinItems_eq (separator : String) {a b : Value} (same : a.sorted = b.sorted) :
    joinItems separator a = joinItems separator b := by
  have one (v : Value) : joinItems separator v.sorted = joinItems separator v := by
    cases v with
    | array items =>
      rw [Value.sorted_array, joinItems, joinItems, List.map_map]
      exact congrArg (Value.string <| separator.intercalate ·)
        (List.map_congr_left fun item _ => Value.text_sorted item)
    | object fields => exact congrArg Value.string (Value.text_sorted (.object fields))
    | _ => rfl
  rw [← one a, same, one]

theorem rangeBound_eq (bound : Bound) {a b : Value} (same : a.sorted = b.sorted) :
    rangeBound bound a = rangeBound bound b := by
  have one (v : Value) : rangeBound bound v.sorted = rangeBound bound v := by cases v <;> rfl
  rw [← one a, same, one]

theorem fill_eq (template : String) {values values' : List Value}
    (same : values.map sorted = values'.map sorted) :
    Template.fill template values = Template.fill template values' := by
  rw [← Template.fill_sorted, same, Template.fill_sorted]

theorem outcome_filterItems {condition transform : Value → Result Value}
    (respects : Respects condition) (respects' : Respects transform) {xs ys : List Value}
    (hx : ∀ x ∈ xs, Regular x) (hy : ∀ y ∈ ys, Regular y) (same : xs.map sorted = ys.map sorted) :
    outcome (List.map sorted) (filterItems condition transform xs) =
      outcome (List.map sorted) (filterItems condition transform ys) := by
  induction xs generalizing ys with
  | nil =>
    cases ys with
    | nil => rfl
    | cons y ys => cases same
  | cons x xs ih =>
    cases ys with
    | nil => cases same
    | cons y ys =>
      obtain ⟨first, others⟩ := List.cons.inj same
      obtain ⟨here, there⟩ := List.forall_mem_cons.mp hx
      obtain ⟨here', there'⟩ := List.forall_mem_cons.mp hy
      have rest := ih there there' others
      rw [filterItems, filterItems]
      refine outcome_bind (respects here here' first) fun verdict verdict' _ _ equal => ?_
      rw [isTruthy_eq equal]
      split
      · refine outcome_bind (respects' here here' first) fun v v' _ _ transformed => ?_
        refine outcome_bind rest fun us us' _ _ more => ?_
        show some ((v :: us).map sorted) = some ((v' :: us').map sorted)
        rw [List.map_cons, List.map_cons, transformed, more]
      · exact rest

namespace Expression

variable [Platform]

/-! ### Lists of operands -/

section Lists

variable {a b : Value} (ha : Regular a) (hb : Regular b) (same : a.sorted = b.sorted)
include ha hb same

theorem outcome_evaluateAll {es : List Expression} (respects : ∀ e ∈ es, Respects e.evaluate) :
    outcome (List.map sorted) (evaluateAll es a) =
      outcome (List.map sorted) (evaluateAll es b) := by
  induction es with
  | nil => rfl
  | cons e rest ih =>
    obtain ⟨here, there⟩ := List.forall_mem_cons.mp respects
    refine outcome_bind (here ha hb same) fun v v' _ _ first => ?_
    refine outcome_bind (ih there) fun us us' _ _ others => ?_
    show some ((v :: us).map sorted) = some ((v' :: us').map sorted)
    rw [List.map_cons, List.map_cons, first, others]

theorem outcome_evaluatePairs {pairs : List (Expression × Expression)}
    (respects : ∀ pair ∈ pairs, Respects pair.1.evaluate ∧ Respects pair.2.evaluate)
    (index : Nat) :
    outcome (Entries.mapValues sorted) (evaluatePairs index pairs a) =
      outcome (Entries.mapValues sorted) (evaluatePairs index pairs b) := by
  induction pairs generalizing index with
  | nil => rfl
  | cons pair rest ih =>
    obtain ⟨⟨key, value⟩, there⟩ := List.forall_mem_cons.mp respects
    refine outcome_bind (key ha hb same) fun name name' _ _ equal => ?_
    cases name with
    | string s =>
      obtain rfl := eq_string_of_sorted equal
      refine outcome_bind (value ha hb same) fun v v' _ _ first => ?_
      refine outcome_bind (ih there (index + 1)) fun us us' _ _ others => ?_
      show some (Entries.mapValues sorted ((s, v) :: us)) =
        some (Entries.mapValues sorted ((s, v') :: us'))
      rw [Entries.mapValues_cons, Entries.mapValues_cons, first, others]
    | _ => cases name' <;> first | rfl | simp [sorted] at equal

theorem outcome_evaluateAnd {operands : List Expression}
    (respects : ∀ e ∈ operands, Respects e.evaluate) :
    outcome sorted (evaluateAnd operands a) = outcome sorted (evaluateAnd operands b) := by
  induction operands with
  | nil => rfl
  | cons e rest ih =>
    obtain ⟨here, there⟩ := List.forall_mem_cons.mp respects
    refine outcome_bind (here ha hb same) fun v v' _ _ equal => ?_
    rw [isTruthy_eq equal]
    split
    · exact ih there
    · rfl

theorem outcome_evaluateOr {operands : List Expression}
    (respects : ∀ e ∈ operands, Respects e.evaluate) :
    outcome sorted (evaluateOr operands a) = outcome sorted (evaluateOr operands b) := by
  induction operands with
  | nil => rfl
  | cons e rest ih =>
    obtain ⟨here, there⟩ := List.forall_mem_cons.mp respects
    refine outcome_bind (here ha hb same) fun v v' _ _ equal => ?_
    rw [isTruthy_eq equal]
    split
    · rfl
    · exact ih there

end Lists

theorem respects_evaluatePipe {inner : List Expression}
    (respects : ∀ e ∈ inner, Respects e.evaluate)
    (keeps : ∀ e ∈ inner, Keeps Value.Plain e.evaluate) : Respects (evaluatePipe inner) := by
  intro a b ha hb same
  induction inner generalizing a b with
  | nil => rw [evaluatePipe, evaluatePipe, outcome_ok, outcome_ok, same]
  | cons e rest ih =>
    obtain ⟨here, there⟩ := List.forall_mem_cons.mp respects
    obtain ⟨regular, regulars⟩ := List.forall_mem_cons.mp keeps
    refine outcome_bind (here ha hb same) fun v v' ok ok' equal => ?_
    exact ih there regulars (regular ha ok) (regular hb ok') equal

/-! ### One operator at a time -/

theorem respects_element {positions leaf : Expression} (located : Respects positions.evaluate)
    (keeps : Keeps Value.Plain positions.evaluate) (respects : Respects leaf.evaluate) :
    Respects (element positions leaf).evaluate := by
  intro a b ha hb same
  -- on a constructor `evaluate` computes, so its binds need no unfolding here and below
  refine outcome_bind (located ha hb same) fun p q okP okQ equal => ?_
  rw [outcome_resolve respects ha hb same p (keeps ha okP), equal]
  exact (outcome_resolve respects hb hb rfl q (keeps hb okQ)).symm

theorem respects_array {items : List Expression} (respects : ∀ e ∈ items, Respects e.evaluate) :
    Respects (array items).evaluate := by
  intro a b ha hb same
  refine outcome_bind (outcome_evaluateAll ha hb same respects) fun us us' _ _ equal => ?_
  show some (Value.array us).sorted = some (Value.array us').sorted
  rw [Value.sorted_array, Value.sorted_array, equal]

theorem respects_object {pairs : List (Expression × Expression)}
    (respects : ∀ pair ∈ pairs, Respects pair.1.evaluate ∧ Respects pair.2.evaluate) :
    Respects (object pairs).evaluate := by
  intro a b ha hb same
  refine outcome_bind (outcome_evaluatePairs ha hb same respects 0) fun us us' _ _ equal => ?_
  show some (Value.object (Entries.ofWrites us)).sorted =
    some (Value.object (Entries.ofWrites us')).sorted
  rw [sorted, sorted, Value.sortedFields_eq, Value.sortedFields_eq,
    ← Entries.ofWrites_mapValues, ← Entries.ofWrites_mapValues, equal]

theorem respects_sprintf {template : Expression} {args : List Expression}
    (first : Respects template.evaluate) (respects : ∀ e ∈ args, Respects e.evaluate) :
    Respects (sprintf template args).evaluate := by
  intro a b ha hb same
  refine outcome_bind (first ha hb same) fun v v' _ _ equal => ?_
  cases v with
  | string s =>
    obtain rfl := eq_string_of_sorted equal
    refine outcome_bind (outcome_evaluateAll ha hb same respects) fun us us' _ _ equal => ?_
    show some (Value.string _).sorted = some (Value.string _).sorted
    rw [fill_eq s equal]
  | _ => cases v' <;> first | rfl | simp [sorted] at equal

theorem respects_join {items separator : Expression} (respects : Respects items.evaluate)
    (between : Respects separator.evaluate) : Respects (join items separator).evaluate := by
  intro a b ha hb same
  refine outcome_bind (between ha hb same) fun v v' _ _ equal => ?_
  cases v with
  | string s =>
    obtain rfl := eq_string_of_sorted equal
    refine outcome_bind (respects ha hb same) fun w w' _ _ equal => ?_
    show some (joinItems s w).sorted = some (joinItems s w').sorted
    rw [joinItems_eq s equal]
  | _ => cases v' <;> first | rfl | simp [sorted] at equal

theorem respects_filter {condition transform : Expression} (holds : Respects condition.evaluate)
    (respects : Respects transform.evaluate) : Respects (filter condition transform).evaluate := by
  intro a b ha hb same
  cases a with
  | array xs =>
    cases b with
    | array ys =>
      have items : xs.map sorted = ys.map sorted := by simpa [Value.sorted_array] using same
      refine outcome_bind (outcome_filterItems holds respects ha.item hb.item items) ?_
      intro us us' _ _ equal
      show some (Value.array us).sorted = some (Value.array us').sorted
      rw [Value.sorted_array, Value.sorted_array, equal]
    | _ => simp [sorted] at same
  | _ =>
    cases b with
    | array => simp [sorted] at same
    | _ => rfl

theorem respects_equal {left right : Expression} (one : Respects left.evaluate)
    (other : Respects right.evaluate) (keeps : Keeps Value.Plain left.evaluate)
    (keeps' : Keeps Value.Plain right.evaluate) : Respects (equal left right).evaluate := by
  intro a b ha hb same
  refine outcome_bind (one ha hb same) fun v v' okV okV' equal => ?_
  refine outcome_bind (other ha hb same) fun w w' okW okW' equal' => ?_
  show some (Value.boolean _).sorted = some (Value.boolean _).sorted
  rw [Value.deepEq_congr (keeps ha okV) (keeps hb okV') (keeps' ha okW) (keeps' hb okW') equal
    equal']

theorem respects_compare {comparison : Value.Comparison} {left right : Expression}
    (one : Respects left.evaluate) (other : Respects right.evaluate) :
    Respects (compare comparison left right).evaluate := by
  intro a b ha hb same
  refine outcome_bind (one ha hb same) fun v v' _ _ equal => ?_
  refine outcome_bind (other ha hb same) fun w w' _ _ equal' => ?_
  show some (Value.boolean _).sorted = some (Value.boolean _).sorted
  rw [← Value.compares_sorted, equal, equal', Value.compares_sorted]

theorem respects_range {first last : Expression} (one : Respects first.evaluate)
    (other : Respects last.evaluate) : Respects (range first last).evaluate := by
  intro a b ha hb same
  refine outcome_bind (one ha hb same) fun v v' _ _ equal => ?_
  rw [rangeBound_eq .first equal]
  cases rangeBound .first v' with
  | error e => rfl
  | ok low =>
    show outcome sorted (last.evaluate a >>= fun v => rangeBound .last v >>= rangeOf low) =
      outcome sorted (last.evaluate b >>= fun v => rangeBound .last v >>= rangeOf low)
    refine outcome_bind (other ha hb same) fun w w' _ _ equal => ?_
    rw [rangeBound_eq .last equal]

theorem respects_not {operand : Expression} (respects : Respects operand.evaluate) :
    Respects (not operand).evaluate := by
  intro a b ha hb same
  refine outcome_bind (respects ha hb same) fun v v' _ _ equal => ?_
  show some (Value.boolean _).sorted = some (Value.boolean _).sorted
  rw [isTruthy_eq equal]

theorem respects_ifThenElse {condition thenBranch elseBranch : Expression}
    (decides : Respects condition.evaluate) (one : Respects thenBranch.evaluate)
    (other : Respects elseBranch.evaluate) :
    Respects (ifThenElse condition thenBranch elseBranch).evaluate := by
  intro a b ha hb same
  refine outcome_bind (decides ha hb same) fun v v' _ _ equal => ?_
  rw [isTruthy_eq equal]
  split
  · exact one ha hb same
  · exact other ha hb same

theorem respects_error {message : Expression} (respects : Respects message.evaluate) :
    Respects (error message).evaluate := by
  intro a b ha hb same
  exact outcome_bind (respects ha hb same) fun _ _ _ _ _ => rfl

theorem respects_recover {body : Expression} (respects : Respects body.evaluate) :
    Respects (recover body).evaluate := by
  intro a b ha hb same
  have inner := respects ha hb same
  rw [evaluate, evaluate]
  cases okA : body.evaluate a with
  | ok v =>
    cases okB : body.evaluate b with
    | ok v' => rwa [okA, okB] at inner
    | error e' => rw [okA, okB] at inner; cases inner
  | error e =>
    cases okB : body.evaluate b with
    | ok v' => rw [okA, okB] at inner; cases inner
    | error e' => rfl

/-- Every expression with regular constants respects the order of fields. -/
theorem respects_evaluate (e : Expression) (constants : e.Constants Regular) :
    Respects e.evaluate := by
  induction e using induction_parts with
  | whole e ih =>
    have respects {part : Expression} (mem : part ∈ e.parts) : Respects part.evaluate :=
      ih part mem (constants.part mem)
    have keeps {part : Expression} (mem : part ∈ e.parts) : Keeps Value.Plain part.evaluate :=
      keeps_evaluate kept_plain part (constants.part mem)
    cases e with
    | constant value => exact fun a b _ _ _ => rfl
    | identity => exact fun a b _ _ same => congrArg some same
    | keys => exact fun a b _ _ same => congrArg (outcome sorted) (keysOf_eq same)
    | element positions leaf =>
      exact respects_element (respects (by simp)) (keeps (by simp)) (respects (by simp))
    | array items => exact respects_array fun e mem => respects (by simp [mem])
    | object pairs =>
      refine respects_object fun pair mem => ?_
      obtain ⟨key, value⟩ := mem_parts_object mem
      exact ⟨respects key, respects value⟩
    | pipe inner =>
      intro a b ha hb same
      exact respects_evaluatePipe (fun e mem => respects (by simp [mem]))
        (fun e mem => keeps (by simp [mem])) ha hb same
    | sprintf template args =>
      exact respects_sprintf (respects (by simp)) fun e mem => respects (by simp [mem])
    | join items separator => exact respects_join (respects (by simp)) (respects (by simp))
    | filter condition transform =>
      exact respects_filter (respects (by simp)) (respects (by simp))
    | equal left right =>
      exact respects_equal (respects (by simp)) (respects (by simp)) (keeps (by simp))
        (keeps (by simp))
    | compare comparison left right =>
      exact respects_compare (respects (by simp)) (respects (by simp))
    | range first last => exact respects_range (respects (by simp)) (respects (by simp))
    | and operands =>
      intro a b ha hb same
      exact outcome_evaluateAnd ha hb same fun e mem => respects (by simp [mem])
    | or operands =>
      intro a b ha hb same
      exact outcome_evaluateOr ha hb same fun e mem => respects (by simp [mem])
    | not operand => exact respects_not (respects (by simp))
    | ifThenElse condition thenBranch elseBranch =>
      exact respects_ifThenElse (respects (by simp)) (respects (by simp)) (respects (by simp))
    | error message => exact respects_error (respects (by simp))
    | recover body => exact respects_recover (respects (by simp))

end Expression

/-! ### Compiled queries -/

/-- On structurally equal values without NaN and negative zero a query fails both times, or its
results are structurally equal and have the same texts. -/
theorem evaluate_congr [Platform] {query : String} {e : Expression}
    (compiled : compile query = .ok e) {a b : Value}
    (distinct : a.Distinct) (distinct' : b.Distinct)
    (numbers : ∀ x, Value.Inside (.float x) a → x.isNaN = false ∧ x ≠ -0.0)
    (numbers' : ∀ x, Value.Inside (.float x) b → x.isNaN = false ∧ x ≠ -0.0)
    (equal : a.deepEq b = true) :
    (∃ error error', e.evaluate a = .error error ∧ e.evaluate b = .error error') ∨
      ∃ x y, e.evaluate a = .ok x ∧ e.evaluate b = .ok y ∧ x.deepEq y = true ∧
        (∀ style, Json.print style x = Json.print style y) ∧ x.text = y.text := by
  have ha : Regular a := Value.regular_iff.mpr ⟨distinct, numbers⟩
  have hb : Regular b := Value.regular_iff.mpr ⟨distinct', numbers'⟩
  have leaf {u : Value} (none : u.children = []) (plain : u.Plain) : Regular u :=
    (Value.everywhere_leaf none).mpr plain
  have constants : e.Constants Regular :=
    constants_of_compile compiled (leaf rfl trivial) (fun _ => leaf rfl trivial)
      (fun _ => leaf rfl trivial) (fun _ _ => leaf rfl trivial)
  have same := e.respects_evaluate constants ha hb ((Value.deepEq_iff a ha b hb).mp equal)
  cases okA : e.evaluate a with
  | error error =>
    cases okB : e.evaluate b with
    | error error' => exact Or.inl ⟨error, error', rfl, rfl⟩
    | ok y => rw [okA, okB] at same; cases same
  | ok x =>
    cases okB : e.evaluate b with
    | error error' => rw [okA, okB] at same; cases same
    | ok y =>
      rw [okA, okB] at same
      have sorted : x.sorted = y.sorted := Option.some.inj same
      have hx : Regular x := Expression.keeps_evaluate kept_plain e constants ha okA
      have hy : Regular y := Expression.keeps_evaluate kept_plain e constants hb okB
      refine Or.inr ⟨x, y, rfl, rfl, (Value.deepEq_iff x hx y hy).mpr sorted, ?_, text_eq sorted⟩
      intro style
      rw [← Json.print_sorted, sorted, Json.print_sorted]

/-- One value, with the fields of its tables in two orders. -/
def shuffled (swap : Bool) : Value :=
  let inner : List (String × Value) := [("x", .null), ("y", .boolean true)]
  let outer : List (String × Value) :=
    [("a", .float 1.5), ("b", .object (if swap then inner.reverse else inner))]
  .object (if swap then outer.reverse else outer)

theorem regular_shuffled (swap : Bool) : Regular (shuffled swap) := by
  have leaf {u : Value} (none : u.children = []) (plain : u.Plain) :
      Value.Everywhere Value.Plain u := (Value.everywhere_leaf none).mpr plain
  have number : (1.5 : Float) ≠ -0.0 := by
    intro same
    have bits := congrArg Float.toBits same
    revert bits
    decide +kernel
  have float := leaf (show (Value.float 1.5).children = [] from rfl) ⟨rfl, number⟩
  have null := leaf (show Value.null.children = [] from rfl) trivial
  have boolean := leaf (show (Value.boolean true).children = [] from rfl) trivial
  cases swap <;>
    simp [shuffled, Regular, Value.everywhere_object, Value.Plain, Entries.Distinct, Entries.keys,
      float, null, boolean]

theorem evaluate_congr_shuffled :
    ∃ e x y, compile "(object \"k\" (keys) \"v\" (\"b\"))" = .ok e ∧
      e.evaluate (shuffled false) = .ok x ∧ e.evaluate (shuffled true) = .ok y ∧
      x.deepEq y = true ∧ Json.print Json.compact x = Json.print Json.compact y := by
  have compiled : compile "(object \"k\" (keys) \"v\" (\"b\"))" = .ok (.object
      [(.constant (.string "k"), .keys),
        (.constant (.string "v"), .element (.constant (.string "b")) .identity)]) := by
    cbv
  obtain ⟨distinct, numbers⟩ := Value.regular_iff.mp (regular_shuffled false)
  obtain ⟨distinct', numbers'⟩ := Value.regular_iff.mp (regular_shuffled true)
  rcases evaluate_congr compiled distinct distinct' numbers numbers' rfl with
    ⟨error, error', fails, -⟩ | ⟨x, y, okA, okB, equal, texts, -⟩
  · cases fails
  · exact ⟨_, x, y, compiled, okA, okB, equal, texts Json.compact⟩

end JsonQuery.Query
