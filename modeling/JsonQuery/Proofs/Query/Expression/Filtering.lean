import JsonQuery.Proofs.Query.Expression.Junctions
import JsonQuery.Proofs.Query.Expression.Mapping

/-!
# Filters

A filter evaluates its condition on every item, and its transform on the items on which the
condition holds. It has a result if and only if all of these evaluations have one
(`filterItems_eq_ok_iff`), so it does not matter to the result whether conditions are tested one
after the other or by one filter, or whether the transform waits until the condition has been tested
on all items. Which error is reported depends on the order: it is the one of the first item that has
one (`filterItems_eq_error_iff`).
-/

namespace JsonQuery.Query

section Items

variable {condition transform : Value → Result Value} {items : List Value} {item : Value}
  {e : EvalError}

/-- The condition has a truthy value on the item. -/
def holds (condition : Value → Result Value) (item : Value) : Bool :=
  (condition item).toOption.any Value.isTruthy

/-- What a filter makes of one item. -/
def sift (condition transform : Value → Result Value) (item : Value) : Result (Option Value) :=
  condition item >>= fun v => if v.isTruthy then (transform item).map some else .ok none

/-- The condition fails on the item, or it holds and the transform fails. -/
def FailsOn (condition transform : Value → Result Value) (item : Value) (e : EvalError) : Prop :=
  condition item = .error e ∨
    ∃ v, condition item = .ok v ∧ v.isTruthy = true ∧ transform item = .error e

theorem holds_of_ok {v : Value} (evaluated : condition item = .ok v) :
    holds condition item = v.isTruthy := by
  rw [holds, evaluated]
  rfl

theorem filterItems_cons (rest : List Value) :
    filterItems condition transform (item :: rest) =
      condition item >>= fun v =>
        if v.isTruthy then
          transform item >>= fun w => (filterItems condition transform rest).map (w :: ·)
        else filterItems condition transform rest := by
  rw [filterItems]
  refine congrArg _ (funext fun v => ?_)
  split
  · refine congrArg _ (funext fun w => ?_)
    cases filterItems condition transform rest <;> rfl
  · rfl

theorem filterItems_eq_ok_iff {results : List Value} :
    filterItems condition transform items = .ok results ↔
      (∀ item ∈ items, ∃ v, condition item = .ok v) ∧
        (items.filter (holds condition)).mapM transform = .ok results := by
  induction items generalizing results with
  | nil => exact (and_iff_right (List.forall_mem_nil _)).symm
  | cons item rest ih =>
    rw [filterItems_cons, List.forall_mem_cons]
    cases decided : condition item with
    | error e =>
      constructor
      · intro ok
        cases ok
      · rintro ⟨⟨⟨v, ok⟩, -⟩, -⟩
        cases ok
    | ok v =>
      rw [List.filter_cons, holds_of_ok decided]
      show (if v.isTruthy then _ else _) = _ ↔ _
      split
      case isFalse => exact ih.trans (and_congr_left fun _ => (and_iff_right ⟨v, rfl⟩).symm)
      case isTrue =>
        -- the transform of this item comes before the conditions on the others, and after them in
        -- the traversal of what is kept
        rw [List.mapM_cons]
        cases transform item with
        | error e =>
          constructor
          · intro ok
            cases ok
          · rintro ⟨-, ok⟩
            cases ok
        | ok w =>
          show (filterItems condition transform rest).map (w :: ·) = _ ↔
            _ ∧ (List.mapM transform _ >>= fun ws => .ok (w :: ws)) = _
          rw [map_eq_ok_iff, bind_eq_ok_iff]
          constructor
          · rintro ⟨ws, kept, rfl⟩
            obtain ⟨decides, mapped⟩ := ih.mp kept
            exact ⟨⟨⟨v, rfl⟩, decides⟩, ws, mapped, rfl⟩
          · rintro ⟨⟨-, decides⟩, ws, mapped, same⟩
            exact ⟨ws, ih.mpr ⟨decides, mapped⟩, Except.ok.inj same⟩

/-! ### Item by item -/

theorem filterItems_eq_mapM :
    filterItems condition transform items =
      (items.mapM (sift condition transform)).map List.reduceOption := by
  induction items with
  | nil => rfl
  | cons item rest ih =>
    rw [filterItems_cons, List.mapM_cons, ih, sift]
    cases condition item with
    | error e => rfl
    | ok v =>
      show (if v.isTruthy then _ else _) =
        Except.map List.reduceOption ((if v.isTruthy then _ else _) >>= _)
      cases v.isTruthy with
      | false => cases rest.mapM (sift condition transform) <;> rfl
      | true =>
        cases transform item with
        | error e => rfl
        | ok w => cases rest.mapM (sift condition transform) <;> rfl

theorem sift_eq_error_iff :
    sift condition transform item = .error e ↔ FailsOn condition transform item e := by
  rw [sift, bind_eq_error_iff]
  refine or_congr_right (exists_congr fun v => and_congr_right fun _ => ?_)
  cases v.isTruthy <;> simp [map_eq_error_iff]

/-- The first item on which the condition or the transform fails has the error of the filter. -/
theorem filterItems_eq_error_iff :
    filterItems condition transform items = .error e ↔
      ∃ (i : Nat) (item : Value), items[i]? = some item ∧ FailsOn condition transform item e ∧
        ∀ j < i, ∀ earlier, items[j]? = some earlier →
          ∀ e', ¬FailsOn condition transform earlier e' := by
  rw [filterItems_eq_mapM, map_eq_error_iff, mapM_eq_error_iff]
  simp only [Each, sift_eq_error_iff, isOk_iff_forall_ne, ne_eq]

theorem filterItems_append_iff {xs ys results : List Value} :
    filterItems condition transform (xs ++ ys) = .ok results ↔
      ∃ us vs, filterItems condition transform xs = .ok us ∧
        filterItems condition transform ys = .ok vs ∧ results = us ++ vs := by
  rw [filterItems_eq_mapM, filterItems_eq_mapM, filterItems_eq_mapM, List.mapM_append]
  cases xs.mapM (sift condition transform) with
  | error e => simp [bind, Except.bind, Except.map]
  | ok us =>
    cases ys.mapM (sift condition transform) with
    | error e => simp [bind, Except.bind, Except.map]
    | ok vs =>
      simp [bind, Except.bind, pure, Except.pure, Except.map, List.reduceOption_append, eq_comm]

end Items

/-- Both are the same array, or both are failures. -/
def Agree (x y : Result Value) : Prop :=
  (∃ items, x = .ok (.array items) ∧ y = .ok (.array items)) ∨
    (∃ e, x = .error e) ∧ ∃ e, y = .error e

theorem agree_of_iff {x y : Result Value} (arrays : ∀ w, x = .ok w → ∃ items, w = .array items)
    (same : ∀ w, x = .ok w ↔ y = .ok w) : Agree x y := by
  cases x with
  | ok w =>
    obtain ⟨items, rfl⟩ := arrays w rfl
    exact .inl ⟨items, rfl, (same _).mp rfl⟩
  | error e =>
    cases y with
    | ok w => cases (same w).mpr rfl
    | error e' => exact .inr ⟨⟨e, rfl⟩, e', rfl⟩

namespace Expression

section Evaluation

variable [Platform] {p q f : Expression} {input item w : Value} {items : List Value}

theorem evaluate_filter_array :
    (filter p f).evaluate (.array items) =
      (filterItems p.evaluate f.evaluate items).map .array := by
  show (filterItems p.evaluate f.evaluate items >>= fun results => .ok (Value.array results)) = _
  cases filterItems p.evaluate f.evaluate items <;> rfl

/-- All conditions are tested first. -/
theorem evaluate_filter_eq_ok_iff :
    (filter p f).evaluate (.array items) = .ok w ↔
      (∀ item ∈ items, ∃ v, p.evaluate item = .ok v) ∧
        ((items.filter (holds p.evaluate)).mapM f.evaluate).map .array = .ok w := by
  rw [evaluate_filter_array, map_eq_ok_iff, map_eq_ok_iff, ← exists_and_left]
  refine exists_congr fun results => ?_
  rw [filterItems_eq_ok_iff, and_assoc]

theorem exists_arrays_of_filter (ok : (filter p f).evaluate input = .ok w) :
    (∃ items, input = .array items) ∧ ∃ results, w = .array results := by
  cases input with
  | array items =>
    rw [evaluate_filter_array] at ok
    obtain ⟨results, -, rfl⟩ := map_eq_ok_iff.mp ok
    exact ⟨⟨items, rfl⟩, results, rfl⟩
  | _ => cases ok

theorem evaluate_filter_identity_iff :
    (filter p identity).evaluate (.array items) = .ok w ↔
      (∀ item ∈ items, ∃ v, p.evaluate item = .ok v) ∧
        w = .array (items.filter (holds p.evaluate)) := by
  rw [evaluate_filter_eq_ok_iff, mapM_identity]
  refine and_congr_right fun _ => ?_
  constructor
  · intro same
    exact (Except.ok.inj same).symm
  · rintro rfl
    rfl

/-! ### Filters in a row -/

/-- A filter in front hands on the items on which its condition holds. -/
theorem evaluate_filter_pipe_iff (second : Expression) :
    (pipe [filter p identity, second]).evaluate (.array items) = .ok w ↔
      (∀ item ∈ items, ∃ v, p.evaluate item = .ok v) ∧
        second.evaluate (.array (items.filter (holds p.evaluate))) = .ok w := by
  rw [evaluate_pipe_pair, bind_eq_ok_iff]
  simp only [evaluate_filter_identity_iff, and_assoc, exists_and_left, exists_eq_left]

theorem exists_array_of_filter_pipe {second : Expression}
    (ok : (pipe [filter p identity, second]).evaluate input = .ok w) :
    ∃ items, input = .array items := by
  rw [evaluate_pipe_pair] at ok
  obtain ⟨between, first, -⟩ := bind_eq_ok_iff.mp ok
  exact (exists_arrays_of_filter first).1

/-- The second operand is evaluated if the first one holds. -/
theorem evaluate_and_pair :
    (and [p, q]).evaluate item =
      p.evaluate item >>= fun v =>
        if v.isTruthy then q.evaluate item >>= fun u => .ok (.boolean u.isTruthy)
        else .ok (.boolean false) := by
  refine congrArg _ (funext fun v => ?_)
  split
  · refine congrArg _ (funext fun u => ?_)
    cases u.isTruthy <;> rfl
  · rfl

theorem holds_and_pair :
    holds (and [p, q]).evaluate item = (holds p.evaluate item && holds q.evaluate item) := by
  unfold holds
  rw [evaluate_and_pair]
  cases p.evaluate item with
  | error e => rfl
  | ok v =>
    show ((if v.isTruthy then _ else _ : Result Value).toOption.any _) = (v.isTruthy && _)
    cases v.isTruthy with
    | false => rfl
    | true =>
      cases q.evaluate item with
      | error e => rfl
      | ok u => exact isTruthy_boolean u.isTruthy

theorem isOk_and_pair_iff :
    (∃ v, (and [p, q]).evaluate item = .ok v) ↔
      (∃ v, p.evaluate item = .ok v) ∧
        (holds p.evaluate item = true → ∃ u, q.evaluate item = .ok u) := by
  rw [evaluate_and_pair, holds]
  cases p.evaluate item with
  | error e =>
    constructor
    · rintro ⟨v, ok⟩
      cases ok
    · rintro ⟨⟨v, ok⟩, -⟩
      cases ok
  | ok v =>
    show (∃ w, (if v.isTruthy then _ else _) = _) ↔ _ ∧ (v.isTruthy = true → _)
    cases v.isTruthy with
    | false => simp
    | true => cases q.evaluate item <;> simp [bind, Except.bind]

theorem filter_filter_iff :
    (pipe [filter p identity, filter q identity]).evaluate (.array items) = .ok w ↔
      (filter (and [p, q]) identity).evaluate (.array items) = .ok w := by
  have kept : (items.filter (holds p.evaluate)).filter (holds q.evaluate) =
      items.filter (holds (and [p, q]).evaluate) := by
    rw [List.filter_filter]
    refine List.filter_congr fun item _ => ?_
    rw [holds_and_pair, Bool.and_comm]
  rw [evaluate_filter_pipe_iff, evaluate_filter_identity_iff, evaluate_filter_identity_iff, kept,
    ← and_assoc]
  refine and_congr_left fun _ => ?_
  simp only [isOk_and_pair_iff, List.mem_filter, forall_and, and_imp]

theorem filter_elements_iff (fits : items.length ≤ Value.integerBound) :
    (filter p f).evaluate (.array items) = .ok w ↔
      (pipe [filter p identity, element keys f]).evaluate (.array items) = .ok w := by
  have kept : (items.filter (holds p.evaluate)).length ≤ Value.integerBound :=
    (List.length_filter_le _ _).trans fits
  rw [evaluate_filter_eq_ok_iff, evaluate_filter_pipe_iff, element_keys_array f kept]

/-- Of all inputs only arrays matter. -/
theorem agree_filter_pipe {second third : Expression}
    (same : ∀ items w, input = .array items →
      ((filter p f).evaluate (.array items) = .ok w ↔
        (pipe [filter second identity, third]).evaluate (.array items) = .ok w)) :
    Agree ((filter p f).evaluate input)
      ((pipe [filter second identity, third]).evaluate input) := by
  refine agree_of_iff (fun w ok => (exists_arrays_of_filter ok).2) fun w => ?_
  constructor
  · intro ok
    obtain ⟨⟨items, rfl⟩, -⟩ := exists_arrays_of_filter ok
    exact (same items w rfl).mp ok
  · intro ok
    obtain ⟨items, rfl⟩ := exists_array_of_filter_pipe ok
    exact (same items w rfl).mpr ok

theorem evaluate_filter_append_iff {xs ys : List Value} :
    (filter p f).evaluate (.array (xs ++ ys)) = .ok w ↔
      ∃ us vs, (filter p f).evaluate (.array xs) = .ok (.array us) ∧
        (filter p f).evaluate (.array ys) = .ok (.array vs) ∧ w = .array (us ++ vs) := by
  simp only [evaluate_filter_array, map_eq_ok_iff, filterItems_append_iff, Value.array.injEq]
  constructor
  · rintro ⟨_, ⟨us, vs, first, second, rfl⟩, rfl⟩
    exact ⟨us, vs, ⟨us, first, rfl⟩, ⟨vs, second, rfl⟩, rfl⟩
  · rintro ⟨_, _, ⟨us, first, rfl⟩, ⟨vs, second, rfl⟩, rfl⟩
    exact ⟨_, ⟨us, vs, first, second, rfl⟩, rfl⟩

/-- Two filters in a row agree with one whose condition is the conjunction, and a filter with a
transform agrees with mapping the transform over what the filter keeps; which error is reported may
differ. The items of one array after those of another are filtered to the two results in a row, and
the first item with a failure has the error. A filter alone keeps the items on which its condition
holds. An array with more items than there are integers, which no memory holds, has no keys. -/
theorem evaluate_filters :
    (∀ (p q : Expression) (input : Value),
      Agree ((filter (and [p, q]) identity).evaluate input)
        ((pipe [filter p identity, filter q identity]).evaluate input)) ∧
    (∀ (p f : Expression) (input : Value),
      (∀ items, input = .array items → items.length ≤ Value.integerBound) →
      Agree ((filter p f).evaluate input)
        ((pipe [filter p identity, element keys f]).evaluate input)) ∧
    (∀ (p f : Expression) (xs ys : List Value),
      (∀ w, (filter p f).evaluate (.array (xs ++ ys)) = .ok w ↔
        ∃ us vs, (filter p f).evaluate (.array xs) = .ok (.array us) ∧
          (filter p f).evaluate (.array ys) = .ok (.array vs) ∧ w = .array (us ++ vs)) ∧
      ∀ e, (filter p f).evaluate (.array (xs ++ ys)) = .error e ↔
        ∃ (i : Nat) (item : Value), (xs ++ ys)[i]? = some item ∧
          FailsOn p.evaluate f.evaluate item e ∧
          ∀ j < i, ∀ earlier, (xs ++ ys)[j]? = some earlier →
            ∀ e', ¬FailsOn p.evaluate f.evaluate earlier e') ∧
    ∀ (p : Expression) (items : List Value) (w : Value),
      (filter p identity).evaluate (.array items) = .ok w ↔
        (∀ item ∈ items, ∃ v, p.evaluate item = .ok v) ∧
          w = .array (items.filter (holds p.evaluate)) := by
  refine ⟨?rows, ?transforms, ?lists, fun p items w => evaluate_filter_identity_iff⟩
  case rows =>
    intro p q input
    exact agree_filter_pipe fun items w _ => filter_filter_iff.symm
  case transforms =>
    intro p f input fits
    exact agree_filter_pipe fun items w same => filter_elements_iff (fits items same)
  case lists =>
    intro p f xs ys
    refine ⟨fun w => evaluate_filter_append_iff, fun e => ?_⟩
    rw [evaluate_filter_array, map_eq_error_iff]
    exact filterItems_eq_error_iff

end Evaluation

theorem evaluate_filters_negated :
    let items : List Value := [.null, .string "a", .null]
    (∀ others, Value.array items = .array others → others.length ≤ Value.integerBound) ∧
    Agree ((filter (not identity) (error identity)).evaluate (.array items))
      ((pipe [filter (not identity) identity, element keys (error identity)]).evaluate
        (.array items)) ∧
    (filter (not identity) identity).evaluate (.array items) = .ok (.array [.null, .null]) := by
  intro items
  obtain ⟨-, transforms, -, kept⟩ := evaluate_filters
  have fits : ∀ others, Value.array items = .array others →
      others.length ≤ Value.integerBound := by
    rintro others same
    cases same
    decide
  refine ⟨fits, transforms _ _ _ fits, (kept _ items _).mpr ⟨fun item _ => ⟨_, rfl⟩, rfl⟩⟩

end Expression

end JsonQuery.Query
