import JsonQuery.Query.Expression

/-!
# Conjunctions and disjunctions

`and` and `or` evaluate their operands from left to right and stop at the first one that decides.
They differ only in which verdict decides, so each law is proved once, for a `junction`: what one
operand does to it (`evaluate_junction_cons`), then what a whole row of them does
(`evaluate_junction_append`). The laws are equations of results, so the errors agree as well.
-/

namespace JsonQuery.Query.Expression

variable (decisive : Bool) (input : Value)

/-- `or`, which any truthy operand decides, or `and`, which any other one does. -/
def junction (operands : List Expression) : Expression :=
  if decisive then or operands else and operands

/-- The conditional expressions that test the operands in order. -/
def chain (operands : List Expression) : Expression :=
  operands.foldr
    (fun operand rest =>
      if decisive then ifThenElse operand (constant (.boolean true)) rest
      else ifThenElse operand rest (constant (.boolean false)))
    (constant (.boolean !decisive))

theorem isTruthy_boolean (b : Bool) : (Value.boolean b).isTruthy = b := by
  cases b <;> rfl

section Laws

variable [Platform]

/-- The expression has a value, and whether this is truthy. -/
def Verdict (e : Expression) (truthy : Bool) : Prop :=
  ∃ v, e.evaluate input = .ok v ∧ v.isTruthy = truthy

theorem evaluate_junction_nil :
    (junction decisive []).evaluate input = .ok (.boolean !decisive) := by
  cases decisive <;> rfl

/-- An operand decides, or leaves it to the others. -/
theorem evaluate_junction_cons (operand : Expression) (rest : List Expression) :
    (junction decisive (operand :: rest)).evaluate input =
      operand.evaluate input >>= fun v =>
        if v.isTruthy = decisive then .ok (.boolean decisive)
        else (junction decisive rest).evaluate input := by
  cases decisive with
  | false =>
    show (operand.evaluate input >>= fun v =>
      if v.isTruthy then evaluateAnd rest input else .ok (.boolean false)) = _
    refine congrArg _ (funext fun v => ?_)
    cases v.isTruthy <;> rfl
  | true => rfl

theorem evaluate_junction_append (before after : List Expression) :
    (junction decisive (before ++ after)).evaluate input =
      (junction decisive before).evaluate input >>= fun v =>
        if v.isTruthy = decisive then .ok (.boolean decisive)
        else (junction decisive after).evaluate input := by
  induction before with
  | nil =>
    rw [evaluate_junction_nil]
    show _ = if (Value.boolean !decisive).isTruthy = decisive then _ else _
    rw [isTruthy_boolean, if_neg (by simp)]
    rfl
  | cons operand rest ih =>
    rw [List.cons_append, evaluate_junction_cons, evaluate_junction_cons, bind_assoc]
    refine congrArg _ (funext fun v => ?_)
    split
    · show _ = if (Value.boolean decisive).isTruthy = decisive then _ else _
      rw [isTruthy_boolean, if_pos rfl]
    · exact ih

/-! ### Laws -/

/-- A junction inside of another one of its kind needs no brackets. -/
theorem evaluate_junction_nested (before inner after : List Expression) :
    (junction decisive (before ++ [junction decisive inner] ++ after)).evaluate input =
      (junction decisive (before ++ inner ++ after)).evaluate input := by
  rw [List.append_assoc, List.append_assoc, evaluate_junction_append,
    evaluate_junction_append _ _ before, List.singleton_append, evaluate_junction_cons,
    evaluate_junction_append _ _ inner]

theorem evaluate_not_junction (operands : List Expression) :
    (not (junction decisive operands)).evaluate input =
      (junction (!decisive) (operands.map not)).evaluate input := by
  induction operands with
  | nil => cases decisive <;> rfl
  | cons operand rest ih =>
    have negated (e : Expression) : (not e).evaluate input =
        e.evaluate input >>= fun v => .ok (.boolean !v.isTruthy) := rfl
    rw [List.map_cons, evaluate_junction_cons, ← ih, negated, negated, evaluate_junction_cons,
      bind_assoc, bind_assoc]
    refine congrArg _ (funext fun v => ?_)
    -- the negated operand decides the other junction exactly where the operand decides this one
    show _ = if (Value.boolean !v.isTruthy).isTruthy = !decisive then _ else _
    rw [isTruthy_boolean]
    by_cases decides : v.isTruthy = decisive
    · rw [if_pos decides, if_pos (congrArg (! ·) decides)]
      show Except.ok (Value.boolean !(Value.boolean decisive).isTruthy) = _
      rw [isTruthy_boolean]
    · rw [if_neg decides, if_neg fun same => decides (Bool.not_inj same), negated]

theorem evaluate_chain (operands : List Expression) :
    (chain decisive operands).evaluate input = (junction decisive operands).evaluate input := by
  induction operands with
  | nil => exact (evaluate_junction_nil decisive input).symm
  | cons operand rest ih =>
    rw [evaluate_junction_cons, ← ih]
    cases decisive with
    | false =>
      show (operand.evaluate input >>= fun v =>
        if v.isTruthy then (chain false rest).evaluate input else .ok (.boolean false)) = _
      refine congrArg _ (funext fun v => ?_)
      cases v.isTruthy <;> rfl
    | true => rfl

variable {decisive input}

/-- Operands that do not decide leave it to those behind them. -/
theorem evaluate_junction_of_undecided {before : List Expression}
    (undecided : ∀ e ∈ before, Verdict input e !decisive) (after : List Expression) :
    (junction decisive (before ++ after)).evaluate input =
      (junction decisive after).evaluate input := by
  induction before with
  | nil => rfl
  | cons operand rest ih =>
    obtain ⟨⟨v, evaluated, other⟩, undecided⟩ := List.forall_mem_cons.mp undecided
    rw [List.cons_append, evaluate_junction_cons, evaluated]
    show (if v.isTruthy = decisive then _ else _) = _
    rw [if_neg (by simp [other]), ih undecided]

theorem evaluate_junction_of_decided {before : List Expression} {decider : Expression}
    (undecided : ∀ e ∈ before, Verdict input e !decisive)
    (decided : Verdict input decider decisive) (after : List Expression) :
    (junction decisive (before ++ decider :: after)).evaluate input = .ok (.boolean decisive) := by
  obtain ⟨v, evaluated, decides⟩ := decided
  rw [evaluate_junction_of_undecided undecided, evaluate_junction_cons, evaluated]
  exact if_pos decides

/-- Negating a conjunction or a disjunction is negating its operands and taking the other one of the
two. Nested ones may be written as one, and each is the chain of conditional expressions that test
its operands. What stands behind an operand that decides is not evaluated. -/
theorem evaluate_junctions (input : Value) :
    (∀ xs, (not (and xs)).evaluate input = (or (xs.map not)).evaluate input) ∧
    (∀ xs, (not (or xs)).evaluate input = (and (xs.map not)).evaluate input) ∧
    (∀ xs ys zs, (and (xs ++ [and ys] ++ zs)).evaluate input =
      (and (xs ++ ys ++ zs)).evaluate input) ∧
    (∀ xs ys zs, (or (xs ++ [or ys] ++ zs)).evaluate input =
      (or (xs ++ ys ++ zs)).evaluate input) ∧
    (∀ xs, (and xs).evaluate input =
      (xs.foldr (fun x rest => ifThenElse x rest (constant (.boolean false)))
        (constant (.boolean true))).evaluate input) ∧
    (∀ xs, (or xs).evaluate input =
      (xs.foldr (fun x rest => ifThenElse x (constant (.boolean true)) rest)
        (constant (.boolean false))).evaluate input) ∧
    (∀ before decider, (∀ e ∈ before, Verdict input e true) → Verdict input decider false →
      ∀ after after', (and (before ++ decider :: after)).evaluate input = .ok (.boolean false) ∧
        (and (before ++ decider :: after')).evaluate input =
          (and (before ++ decider :: after)).evaluate input) ∧
    ∀ before decider, (∀ e ∈ before, Verdict input e false) → Verdict input decider true →
      ∀ after after', (or (before ++ decider :: after)).evaluate input = .ok (.boolean true) ∧
        (or (before ++ decider :: after')).evaluate input =
          (or (before ++ decider :: after)).evaluate input := by
  refine ⟨evaluate_not_junction false input, evaluate_not_junction true input,
    evaluate_junction_nested false input, evaluate_junction_nested true input,
    fun xs => (evaluate_chain false input xs).symm, fun xs => (evaluate_chain true input xs).symm,
    ?conjunction, ?disjunction⟩
  case conjunction =>
    intro before decider undecided decided after after'
    have cut := @evaluate_junction_of_decided false input _ before decider undecided decided
    exact ⟨cut after, (cut after').trans (cut after).symm⟩
  case disjunction =>
    intro before decider undecided decided after after'
    have cut := @evaluate_junction_of_decided true input _ before decider undecided decided
    exact ⟨cut after, (cut after').trans (cut after).symm⟩

end Laws

theorem evaluate_junctions_cut :
    let input := Value.string "truthy"
    Verdict input identity true ∧ Verdict input (not identity) false ∧
    (and [identity, not identity, error identity]).evaluate input = .ok (.boolean false) ∧
    (or [not identity, identity]).evaluate input =
      (or [not identity, identity, error identity]).evaluate input := by
  intro input
  have truthy : Verdict input identity true := ⟨input, rfl, rfl⟩
  have other : Verdict input (not identity) false := ⟨.boolean false, rfl, rfl⟩
  obtain ⟨-, -, -, -, -, -, conjunction, disjunction⟩ := evaluate_junctions input
  refine ⟨truthy, other, ?_, ?_⟩
  · exact (conjunction [identity] _ (List.forall_mem_singleton.mpr truthy) other _ []).1
  · exact (disjunction [not identity] _ (List.forall_mem_singleton.mpr other) truthy _ _).2

end JsonQuery.Query.Expression
