import JsonQuery.Query.Expression
import Mathlib.Data.List.Forall2

/-!
# Guarding parts of an expression

`Guarded e e'` says that `e'` is `e` with some parts put into a `recover`, none of them below one
that `e` has already. Outside of `recover` no operator turns an error into a value
(`Expression.evaluate_of_reaches`), so a guard that comes into play belongs to an evaluation that
fails anyway: every result of `e` is one of `e'` (`evaluate_guarded`).
-/

namespace JsonQuery.Query

mutual

/-- Parts anywhere in the expression, the whole included, are put into a `recover`. What is below a
`recover` stays as it is. -/
inductive Guarded : Expression → Expression → Prop where
  | wrap {e e' : Expression} (h : Guarded e e') : Guarded e (.recover e')
  | constant (value : Value) : Guarded (.constant value) (.constant value)
  | identity : Guarded .identity .identity
  | element {positions positions' leaf leaf' : Expression} (located : Guarded positions positions')
      (inner : Guarded leaf leaf') : Guarded (.element positions leaf) (.element positions' leaf')
  | keys : Guarded .keys .keys
  | array {items items' : List Expression} (h : GuardedAll items items') :
      Guarded (.array items) (.array items')
  | object {pairs pairs' : List (Expression × Expression)} (h : GuardedPairs pairs pairs') :
      Guarded (.object pairs) (.object pairs')
  | pipe {stages stages' : List Expression} (h : GuardedAll stages stages') :
      Guarded (.pipe stages) (.pipe stages')
  | sprintf {template template' : Expression} {args args' : List Expression}
      (first : Guarded template template') (others : GuardedAll args args') :
      Guarded (.sprintf template args) (.sprintf template' args')
  | join {items items' separator separator' : Expression} (joined : Guarded items items')
      (between : Guarded separator separator') :
      Guarded (.join items separator) (.join items' separator')
  | filter {condition condition' transform transform' : Expression}
      (decides : Guarded condition condition') (inner : Guarded transform transform') :
      Guarded (.filter condition transform) (.filter condition' transform')
  | equal {left left' right right' : Expression} (one : Guarded left left')
      (other : Guarded right right') : Guarded (.equal left right) (.equal left' right')
  | compare {left left' right right' : Expression} (comparison : Value.Comparison)
      (one : Guarded left left') (other : Guarded right right') :
      Guarded (.compare comparison left right) (.compare comparison left' right')
  | range {first first' last last' : Expression} (one : Guarded first first')
      (other : Guarded last last') : Guarded (.range first last) (.range first' last')
  | and {operands operands' : List Expression} (h : GuardedAll operands operands') :
      Guarded (.and operands) (.and operands')
  | or {operands operands' : List Expression} (h : GuardedAll operands operands') :
      Guarded (.or operands) (.or operands')
  | not {operand operand' : Expression} (h : Guarded operand operand') :
      Guarded (.not operand) (.not operand')
  | ifThenElse {condition condition' thenBranch thenBranch' elseBranch elseBranch' : Expression}
      (decides : Guarded condition condition') (one : Guarded thenBranch thenBranch')
      (other : Guarded elseBranch elseBranch') :
      Guarded (.ifThenElse condition thenBranch elseBranch)
        (.ifThenElse condition' thenBranch' elseBranch')
  | error {message message' : Expression} (h : Guarded message message') :
      Guarded (.error message) (.error message')
  | recover (body : Expression) : Guarded (.recover body) (.recover body)

inductive GuardedAll : List Expression → List Expression → Prop where
  | nil : GuardedAll [] []
  | cons {e e' : Expression} {rest rest' : List Expression} (head : Guarded e e')
      (tail : GuardedAll rest rest') : GuardedAll (e :: rest) (e' :: rest')

inductive GuardedPairs :
    List (Expression × Expression) → List (Expression × Expression) → Prop where
  | nil : GuardedPairs [] []
  | cons {key key' value value' : Expression} {rest rest' : List (Expression × Expression)}
      (name : Guarded key key') (entry : Guarded value value') (tail : GuardedPairs rest rest') :
      GuardedPairs ((key, value) :: rest) ((key', value') :: rest')

end

/-! ### Results that stay -/

/-- The second computation succeeds wherever the first one does, with the same result. -/
def Below {α : Type} (x y : Result α) : Prop := ∀ a, x = .ok a → y = .ok a

/-- `Below`, on every input. -/
def Extends (f g : Value → Result Value) : Prop := ∀ v, Below (f v) (g v)

section Below

variable {α β : Type}

theorem Below.refl (x : Result α) : Below x x := fun _ ok => ok

theorem Below.bind {x y : Result α} {f g : α → Result β} (h : Below x y)
    (next : ∀ a, Below (f a) (g a)) : Below (x >>= f) (y >>= g) := by
  intro b ok
  cases x with
  | error e => cases ok
  | ok a =>
    rw [h a rfl]
    exact next a b ok

end Below

/-! ### Operators -/

section Operators

variable {leaf leaf' : Value → Result Value}

theorem below_address (h : Extends leaf leaf') (parts : Parts) (position : Value) :
    Below (address leaf parts position) (address leaf' parts position) := by
  unfold address
  split
  · split
    · split
      · exact h _
      · exact .refl _
    · exact .refl _
  · split
    · split
      · exact h _
      · exact .refl _
    · exact .refl _
  · exact .refl _

mutual

theorem below_resolve (h : Extends leaf leaf') (parts : Parts) (position : Value) :
    Below (resolve leaf parts position) (resolve leaf' parts position) := by
  match position with
  | .array positions =>
    rw [resolve, resolve]
    exact (below_resolveItems h parts positions).bind fun _ => .refl _
  | .object positions =>
    rw [resolve, resolve]
    exact (below_resolveFields h parts positions).bind fun _ => .refl _
  | .null | .boolean _ | .float _ | .integer _ | .string _ =>
    rw [resolve, resolve]
    · exact below_address h parts _
    all_goals exact nofun

theorem below_resolveItems (h : Extends leaf leaf') (parts : Parts) (positions : List Value) :
    Below (resolveItems leaf parts positions) (resolveItems leaf' parts positions) := by
  match positions with
  | [] => exact .refl _
  | position :: rest =>
    rw [resolveItems, resolveItems]
    refine (below_resolve h parts position).bind fun _ => ?_
    exact (below_resolveItems h parts rest).bind fun _ => .refl _

theorem below_resolveFields (h : Extends leaf leaf') (parts : Parts)
    (positions : List (String × Value)) :
    Below (resolveFields leaf parts positions) (resolveFields leaf' parts positions) := by
  match positions with
  | [] => exact .refl _
  | (key, position) :: rest =>
    rw [resolveFields, resolveFields]
    refine (below_resolve h parts position).bind fun _ => ?_
    exact (below_resolveFields h parts rest).bind fun _ => .refl _

end

theorem below_filterItems {condition condition' transform transform' : Value → Result Value}
    (decides : Extends condition condition') (h : Extends transform transform')
    (items : List Value) :
    Below (filterItems condition transform items) (filterItems condition' transform' items) := by
  induction items with
  | nil => exact .refl _
  | cons item rest ih =>
    rw [filterItems, filterItems]
    refine (decides item).bind fun verdict => ?_
    split
    · exact (h item).bind fun _ => ih.bind fun _ => .refl _
    · exact ih

end Operators

namespace Expression

variable [Platform]

/-- The evaluation of the second expression extends that of the first. -/
def Upholds (e e' : Expression) : Prop := Extends e.evaluate e'.evaluate

section Lists

variable {es es' : List Expression}

theorem below_evaluateAll (h : List.Forall₂ Upholds es es') (input : Value) :
    Below (evaluateAll es input) (evaluateAll es' input) := by
  induction h with
  | nil => exact .refl _
  | cons head _ ih => exact (head input).bind fun _ => ih.bind fun _ => .refl _

theorem below_evaluatePipe (h : List.Forall₂ Upholds es es') (input : Value) :
    Below (evaluatePipe es input) (evaluatePipe es' input) := by
  induction h generalizing input with
  | nil => exact .refl _
  | cons head _ ih => exact (head input).bind fun between => ih between

theorem below_evaluateAnd (h : List.Forall₂ Upholds es es') (input : Value) :
    Below (evaluateAnd es input) (evaluateAnd es' input) := by
  induction h with
  | nil => exact .refl _
  | cons head _ ih =>
    refine (head input).bind fun verdict => ?_
    split
    · exact ih
    · exact .refl _

theorem below_evaluateOr (h : List.Forall₂ Upholds es es') (input : Value) :
    Below (evaluateOr es input) (evaluateOr es' input) := by
  induction h with
  | nil => exact .refl _
  | cons head _ ih =>
    refine (head input).bind fun verdict => ?_
    split
    · exact .refl _
    · exact ih

theorem below_evaluatePairs {pairs pairs' : List (Expression × Expression)}
    (h : List.Forall₂ (fun p p' => Upholds p.1 p'.1 ∧ Upholds p.2 p'.2) pairs pairs')
    (index : Nat) (input : Value) :
    Below (evaluatePairs index pairs input) (evaluatePairs index pairs' input) := by
  induction h generalizing index with
  | nil => exact .refl _
  | cons head _ ih =>
    refine (head.1 input).bind fun name => ?_
    cases name with
    | string key => exact (head.2 input).bind fun _ => (ih (index + 1)).bind fun _ => .refl _
    | _ => exact .refl _

end Lists

theorem upholds_recover {e e' : Expression} (h : Upholds e e') : Upholds e (.recover e') := by
  intro v w ok
  rw [evaluate, h v w ok]

end Expression

/-! ### Expressions -/

open Expression (Upholds)

section Evaluation

variable [Platform]

mutual

/-- By the parts that are guarded: on a constructor `evaluate` computes, so its binds need no
unfolding. -/
theorem Guarded.upholds {e e' : Expression} (h : Guarded e e') : Upholds e e' := by
  match h with
  | .wrap h => exact Expression.upholds_recover h.upholds
  | .constant _ | .identity | .keys | .recover _ => exact fun v => .refl _
  | .element located inner =>
    exact fun v => (located.upholds v).bind fun where_ => below_resolve inner.upholds _ where_
  | .array h => exact fun v => (Expression.below_evaluateAll h.upholds v).bind fun _ => .refl _
  | .object h => exact fun v => (Expression.below_evaluatePairs h.upholds 0 v).bind fun _ => .refl _
  | .pipe h => exact Expression.below_evaluatePipe h.upholds
  | .sprintf first others =>
    refine fun v => (first.upholds v).bind fun template => ?_
    cases template with
    | string => exact (Expression.below_evaluateAll others.upholds v).bind fun _ => .refl _
    | _ => exact .refl _
  | .join joined between =>
    refine fun v => (between.upholds v).bind fun separator => ?_
    cases separator with
    | string => exact (joined.upholds v).bind fun _ => .refl _
    | _ => exact .refl _
  | .filter decides inner =>
    intro v
    cases v with
    | array items =>
      exact (below_filterItems decides.upholds inner.upholds items).bind fun _ => .refl _
    | _ => exact .refl _
  | .equal one other | .compare _ one other =>
    exact fun v => (one.upholds v).bind fun _ => (other.upholds v).bind fun _ => .refl _
  | .range one other =>
    refine fun v => (one.upholds v).bind fun _ => (Below.refl _).bind fun _ => ?_
    exact (other.upholds v).bind fun _ => .refl _
  | .and h => exact Expression.below_evaluateAnd h.upholds
  | .or h => exact Expression.below_evaluateOr h.upholds
  | .not h => exact fun v => (h.upholds v).bind fun _ => .refl _
  | .ifThenElse decides one other =>
    refine fun v => (decides.upholds v).bind fun verdict => ?_
    split
    · exact one.upholds v
    · exact other.upholds v
  | .error h => exact fun v => (h.upholds v).bind fun _ => .refl _

theorem GuardedAll.upholds {es es' : List Expression} (h : GuardedAll es es') :
    List.Forall₂ Upholds es es' := by
  match h with
  | .nil => exact .nil
  | .cons head tail => exact .cons head.upholds tail.upholds

theorem GuardedPairs.upholds {pairs pairs' : List (Expression × Expression)}
    (h : GuardedPairs pairs pairs') :
    List.Forall₂ (fun p p' => Upholds p.1 p'.1 ∧ Upholds p.2 p'.2) pairs pairs' := by
  match h with
  | .nil => exact .nil
  | .cons name entry tail => exact .cons ⟨name.upholds, entry.upholds⟩ tail.upholds

end

/-- Guards change no result. -/
theorem evaluate_guarded {e e' : Expression} (guarded : Guarded e e') {v w : Value}
    (ok : e.evaluate v = .ok w) : e'.evaluate v = .ok w :=
  guarded.upholds v w ok

end Evaluation

/-- A stage, a leaf, a condition, a transform and a key, and the same with guards. -/
def picked (guard : Expression → Expression) : Expression :=
  .pipe [guard (.element (guard (.constant (.string "xs")))
      (.filter (guard .identity) (guard (.not .identity)))),
    .object [(guard (.constant (.string "k")), guard .keys)]]

theorem guarded_picked : Guarded (picked id) (picked .recover) :=
  have positions : Guarded (.constant (.string "xs")) (.recover (.constant (.string "xs"))) :=
    .wrap (.constant _)
  have leaf := Guarded.filter (.wrap .identity) (.wrap (.not .identity))
  have pairs := GuardedPairs.cons (.wrap (.constant (.string "k"))) (.wrap .keys) .nil
  .pipe (.cons (.wrap (.element positions leaf)) (.cons (.object pairs) .nil))

theorem evaluate_guarded_picked :
    (picked id).evaluate (.object [("xs", .array [.null, .boolean true])]) =
        .ok (.object [("k", .array [.integer 0])]) ∧
      (picked .recover).evaluate (.object [("xs", .array [.null, .boolean true])]) =
        .ok (.object [("k", .array [.integer 0])]) := by
  have ok : (picked id).evaluate (.object [("xs", .array [.null, .boolean true])]) =
      .ok (.object [("k", .array [.integer 0])]) := by
    rfl
  exact ⟨ok, evaluate_guarded guarded_picked ok⟩

end JsonQuery.Query
