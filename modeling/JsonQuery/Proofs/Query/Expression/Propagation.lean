import JsonQuery.Proofs.Query.Expression.Construction
import JsonQuery.Proofs.Query.Expression.Filtering

/-!
# Errors of parts

`Calls` lists for every operator the evaluations that it makes of its parts, each with the ones in
front of it that must have gone well. There is none for `recover`. An error of a part that is
called is the error of its operator, and so of all operators around it (`evaluate_of_reaches`).
-/

namespace JsonQuery.Query.Expression

/-- The evaluation of the first expression on the first value evaluates the second on the second,
and does not turn its error into a value. -/
inductive Calls [Platform] : Expression → Value → Expression → Value → Prop where
  | positions {positions leaf : Expression} {v : Value} :
      Calls (.element positions leaf) v positions v
  | leaf {positions leaf : Expression} {v position scalar child : Value}
      {before after : List Value} (located : positions.evaluate v = .ok position)
      (order : position.scalars = before ++ scalar :: after)
      (earlier : ∀ s ∈ before, ∃ w, address leaf.evaluate (partsOf v) s = .ok w)
      (found : child? v scalar = some child) : Calls (.element positions leaf) v leaf child
  | item {before after : List Expression} {item : Expression} {v : Value} {values : List Value}
      (earlier : evaluateAll before v = .ok values) :
      Calls (.array (before ++ item :: after)) v item v
  | key {before after : List (Expression × Expression)} {key value : Expression} {v : Value}
      (earlier : ∀ pair ∈ before, PairEvaluates v pair) :
      Calls (.object (before ++ (key, value) :: after)) v key v
  | value {before after : List (Expression × Expression)} {key value : Expression} {v : Value}
      {s : String} (earlier : ∀ pair ∈ before, PairEvaluates v pair)
      (named : key.evaluate v = .ok (.string s)) :
      Calls (.object (before ++ (key, value) :: after)) v value v
  | stage {before after : List Expression} {stage : Expression} {v between : Value}
      (earlier : evaluatePipe before v = .ok between) :
      Calls (.pipe (before ++ stage :: after)) v stage between
  | template {template : Expression} {args : List Expression} {v : Value} :
      Calls (.sprintf template args) v template v
  | argument {template argument : Expression} {before after : List Expression} {v : Value}
      {s : String} {values : List Value} (filled : template.evaluate v = .ok (.string s))
      (earlier : evaluateAll before v = .ok values) :
      Calls (.sprintf template (before ++ argument :: after)) v argument v
  | separator {items separator : Expression} {v : Value} :
      Calls (.join items separator) v separator v
  | joined {items separator : Expression} {v : Value} {s : String}
      (between : separator.evaluate v = .ok (.string s)) : Calls (.join items separator) v items v
  | condition {condition transform : Expression} {before after : List Value} {item : Value}
      {kept : List Value}
      (earlier : filterItems condition.evaluate transform.evaluate before = .ok kept) :
      Calls (.filter condition transform) (.array (before ++ item :: after)) condition item
  | transform {condition transform : Expression} {before after : List Value} {item verdict : Value}
      {kept : List Value}
      (earlier : filterItems condition.evaluate transform.evaluate before = .ok kept)
      (decided : condition.evaluate item = .ok verdict) (holds : verdict.isTruthy = true) :
      Calls (.filter condition transform) (.array (before ++ item :: after)) transform item
  | equalLeft {left right : Expression} {v : Value} : Calls (.equal left right) v left v
  | equalRight {left right : Expression} {v w : Value} (earlier : left.evaluate v = .ok w) :
      Calls (.equal left right) v right v
  | compareLeft {comparison : Value.Comparison} {left right : Expression} {v : Value} :
      Calls (.compare comparison left right) v left v
  | compareRight {comparison : Value.Comparison} {left right : Expression} {v w : Value}
      (earlier : left.evaluate v = .ok w) : Calls (.compare comparison left right) v right v
  | first {first last : Expression} {v : Value} : Calls (.range first last) v first v
  | last {first last : Expression} {v : Value} {n : Int64}
      (earlier : first.evaluate v = .ok (.integer n)) : Calls (.range first last) v last v
  | operand {decisive : Bool} {before after : List Expression} {operand : Expression} {v : Value}
      (undecided : (junction decisive before).evaluate v = .ok (.boolean !decisive)) :
      Calls (junction decisive (before ++ operand :: after)) v operand v
  | negated {operand : Expression} {v : Value} : Calls (.not operand) v operand v
  | decides {condition thenBranch elseBranch : Expression} {v : Value} :
      Calls (.ifThenElse condition thenBranch elseBranch) v condition v
  | thenBranch {condition thenBranch elseBranch : Expression} {v verdict : Value}
      (decided : condition.evaluate v = .ok verdict) (holds : verdict.isTruthy = true) :
      Calls (.ifThenElse condition thenBranch elseBranch) v thenBranch v
  | elseBranch {condition thenBranch elseBranch : Expression} {v verdict : Value}
      (decided : condition.evaluate v = .ok verdict) (fails : verdict.isTruthy = false) :
      Calls (.ifThenElse condition thenBranch elseBranch) v elseBranch v
  | message {message : Expression} {v : Value} : Calls (.error message) v message v

/-- `Calls`, through any number of operators. -/
inductive Reaches [Platform] (e : Expression) (v : Value) : Expression → Value → Prop where
  | self : Reaches e v e v
  | call {between part : Expression} {u w : Value} (h : Reaches e v between u)
      (next : Calls between u part w) : Reaches e v part w

section Errors

variable {v w : Value} {failure : EvalError}

theorem bind_of_error {α β : Type} {x : Result α} {f : α → Result β} (failed : x = .error failure) :
    x >>= f = .error failure := by
  rw [failed]
  rfl

theorem bind_of_ok {α β : Type} {x : Result α} {f : α → Result β} {a : α} (ok : x = .ok a)
    (failed : f a = .error failure) : x >>= f = .error failure := by
  rw [ok]
  exact failed

theorem mapM_of_error {α β : Type} {f : α → Result β} {before after : List α} {x : α} {ys : List β}
    (ok : before.mapM f = .ok ys) (failed : f x = .error failure) :
    (before ++ x :: after).mapM f = .error failure := by
  rw [List.mapM_append, ok, List.mapM_cons, failed]
  rfl

theorem filterItems_of_error {condition transform : Value → Result Value}
    {before after kept : List Value} {item : Value}
    (earlier : filterItems condition transform before = .ok kept)
    (fails : FailsOn condition transform item failure) :
    filterItems condition transform (before ++ item :: after) = .error failure := by
  rw [filterItems_eq_mapM] at earlier ⊢
  obtain ⟨sifted, all, -⟩ := map_eq_ok_iff.mp earlier
  exact map_eq_error_iff.mpr (mapM_of_error all (sift_eq_error_iff.mpr fails))

theorem resolve_of_error {leaf : Value → Result Value} {position scalar child : Value}
    {before after : List Value} (order : position.scalars = before ++ scalar :: after)
    (earlier : ∀ s ∈ before, ∃ w, address leaf (partsOf v) s = .ok w)
    (found : child? v scalar = some child) (failed : leaf child = .error failure) :
    resolve leaf (partsOf v) position = .error failure := by
  have here : address leaf (partsOf v) scalar = .error failure := by
    rw [address_of_suits (suits_of_child? found), found]
    exact failed
  rw [resolve_eq, order, firstFailure?_append, (firstFailure?_eq_none_iff _ _).mpr earlier,
    Option.none_or, firstFailure?, List.findSome?_cons, here]
  rfl

variable [Platform]

theorem evaluateAll_of_error {before after : List Expression} {item : Expression}
    {values : List Value} (earlier : evaluateAll before v = .ok values)
    (failed : item.evaluate v = .error failure) :
    evaluateAll (before ++ item :: after) v = .error failure := by
  rw [evaluateAll_eq_mapM] at earlier ⊢
  exact mapM_of_error earlier failed

theorem evaluatePipe_of_error {before after : List Expression} {stage : Expression}
    (earlier : evaluatePipe before v = .ok w) (failed : stage.evaluate w = .error failure) :
    evaluatePipe (before ++ stage :: after) v = .error failure := by
  induction before generalizing v with
  | nil =>
    cases earlier
    exact bind_of_error failed
  | cons first rest ih =>
    obtain ⟨between, here, there⟩ := bind_eq_ok_iff.mp earlier
    exact bind_of_ok here (ih there)

theorem evaluate_object_of_error {before after : List (Expression × Expression)}
    {pair : Expression × Expression} (earlier : ∀ pair ∈ before, PairEvaluates v pair)
    (fails : PairFails v before.length pair failure) :
    (object (before ++ pair :: after)).evaluate v = .error failure := by
  refine evaluate_object_eq_error_iff.mpr ⟨before.length, pair, by simp, fails, ?_⟩
  intro j inside other found
  rw [List.getElem?_append_left inside] at found
  exact earlier other (List.mem_of_getElem? found)

/-- One case for every call: what is in front of the part goes well, and then its error is that of
the operator. -/
theorem Calls.error {e part : Expression} (call : Calls e v part w)
    (failed : part.evaluate w = .error failure) : e.evaluate v = .error failure := by
  cases call with
  | positions | template | separator | equalLeft | compareLeft | first | negated |
      decides | message =>
    exact bind_of_error failed
  | leaf located order earlier found =>
    exact bind_of_ok located (resolve_of_error order earlier found failed)
  | item earlier => exact bind_of_error (evaluateAll_of_error earlier failed)
  | key earlier => exact evaluate_object_of_error earlier (.key failed)
  | value earlier named => exact evaluate_object_of_error earlier (.value named failed)
  | stage earlier => exact evaluatePipe_of_error earlier failed
  | argument filled earlier =>
    exact bind_of_ok filled (bind_of_error (evaluateAll_of_error earlier failed))
  | joined between => exact bind_of_ok between (bind_of_error failed)
  | condition earlier => exact bind_of_error (filterItems_of_error earlier (.inl failed))
  | transform earlier decided holds =>
    exact bind_of_error (filterItems_of_error earlier (.inr ⟨_, decided, holds, failed⟩))
  | equalRight earlier | compareRight earlier => exact bind_of_ok earlier (bind_of_error failed)
  | last earlier => exact bind_of_ok earlier (bind_of_ok rfl (bind_of_error failed))
  | @operand decisive before after operand v undecided =>
    rw [evaluate_junction_append]
    refine bind_of_ok undecided ?_
    rw [isTruthy_boolean, if_neg (by simp), evaluate_junction_cons]
    exact bind_of_error failed
  | thenBranch decided holds =>
    refine bind_of_ok decided ?_
    rw [if_pos holds]
    exact failed
  | elseBranch decided fails =>
    refine bind_of_ok decided ?_
    rw [if_neg (by simp [fails])]
    exact failed

/-- Between a part and the whole no operator but `recover` stops an error. -/
theorem evaluate_of_reaches {e part : Expression} (reached : Reaches e v part w)
    (failed : part.evaluate w = .error failure) : e.evaluate v = .error failure := by
  induction reached with
  | self => exact failed
  | call _ next ih => exact ih (next.error failed)

end Errors

end JsonQuery.Query.Expression
