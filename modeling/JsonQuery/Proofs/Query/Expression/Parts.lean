import JsonQuery.Query.Expression

/-!
# Parts of expressions

What the parts of an expression are evaluated on, and induction over parts (`induction_parts`), in
which lists of parts need no lists of proofs. `Constants p` says that every constant at any depth
satisfies `p`.
-/

namespace JsonQuery.Query

namespace Expression

/-- The parts that are evaluated on the input itself. -/
@[simp]
def operands : Expression → List Expression
  | .element positions _ => [positions]
  | .array items => items
  | .object pairs => pairs.flatMap fun pair => [pair.1, pair.2]
  | .sprintf template args => template :: args
  | .join items separator => [separator, items]
  | .equal left right | .compare _ left right => [left, right]
  | .range first last => [first, last]
  | .and operands | .or operands => operands
  | .not operand => [operand]
  | .ifThenElse condition thenBranch elseBranch => [condition, thenBranch, elseBranch]
  | .error message => [message]
  | .recover body => [body]
  | _ => []

/-- The parts that are evaluated on parts of the input. -/
@[simp]
def leaves : Expression → List Expression
  | .element _ leaf => [leaf]
  | .filter condition transform => [condition, transform]
  | _ => []

/-- The parts that are evaluated on each other's results. -/
@[simp]
def stages : Expression → List Expression
  | .pipe stages => stages
  | _ => []

@[simp]
def parts (e : Expression) : List Expression := e.operands ++ e.leaves ++ e.stages

theorem mem_parts {e part : Expression} :
    part ∈ e.parts ↔ part ∈ e.operands ∨ part ∈ e.leaves ∨ part ∈ e.stages := by
  rw [parts, List.mem_append, List.mem_append, or_assoc]

theorem mem_parts_object {pairs : List (Expression × Expression)} {pair : Expression × Expression}
    (mem : pair ∈ pairs) :
    pair.1 ∈ (Expression.object pairs).parts ∧ pair.2 ∈ (Expression.object pairs).parts := by
  simp only [parts, operands, leaves, stages, List.append_nil, List.mem_flatMap]
  exact ⟨⟨pair, mem, List.mem_cons_self⟩, pair, mem, List.mem_cons_of_mem _ List.mem_cons_self⟩

theorem sizeOf_lt_of_mem {e part : Expression} (mem : part ∈ e.parts) :
    sizeOf part < sizeOf e := by
  cases e with
  | array items | pipe items | and items | or items =>
    have smaller : sizeOf part < sizeOf items := List.sizeOf_lt_of_mem (by simpa using mem)
    simp
    omega
  | object pairs =>
    have member : ∃ pair ∈ pairs, part = pair.1 ∨ part = pair.2 := by simpa using mem
    obtain ⟨⟨key, value⟩, inside, side⟩ := member
    have smaller := List.sizeOf_lt_of_mem inside
    rw [Prod.mk.sizeOf_spec] at smaller
    rw [object.sizeOf_spec]
    rcases side with rfl | rfl <;> omega
  | sprintf template args =>
    rcases List.mem_cons.mp (by simpa using mem) with rfl | inside
    · simp
      omega
    · have smaller := List.sizeOf_lt_of_mem inside
      simp
      omega
  | constant | identity | keys => simp at mem
  | not operand | error operand | recover operand =>
    obtain rfl : part = operand := by simpa using mem
    simp
  | element one other | join other one | filter one other | equal one other
  | compare _ one other | range one other =>
    have member : part = one ∨ part = other := by simpa using mem
    simp only [element.sizeOf_spec, join.sizeOf_spec, filter.sizeOf_spec, equal.sizeOf_spec,
      compare.sizeOf_spec, range.sizeOf_spec]
    rcases member with rfl | rfl <;> omega
  | ifThenElse condition thenBranch elseBranch =>
    have member : part = condition ∨ part = thenBranch ∨ part = elseBranch := by simpa using mem
    rw [ifThenElse.sizeOf_spec]
    rcases member with rfl | rfl | rfl <;> omega

/-- A property of all expressions, by what the parts of an expression have. -/
@[elab_as_elim]
theorem induction_parts {motive : Expression → Prop} (e : Expression)
    (whole : ∀ e, (∀ part ∈ e.parts, motive part) → motive e) : motive e :=
  whole e fun part _ => induction_parts part whole
termination_by sizeOf e
decreasing_by exact sizeOf_lt_of_mem ‹_›

/-! ### Constants -/

/-- `part` is `e` or a part of it at any depth. -/
inductive Within (part : Expression) : Expression → Prop where
  | self : Within part part
  | child {e inner : Expression} (mem : inner ∈ e.parts) (within : Within part inner) :
      Within part e

/-- Every constant in the expression satisfies `p`. -/
def Constants (p : Value → Prop) (e : Expression) : Prop :=
  ∀ value, Within (.constant value) e → p value

theorem Constants.part {p : Value → Prop} {e inner : Expression} (h : e.Constants p)
    (mem : inner ∈ e.parts) : inner.Constants p :=
  fun value within => h value (.child mem within)

theorem constants_constant {p : Value → Prop} {value : Value} :
    (Expression.constant value).Constants p ↔ p value := by
  constructor
  · exact fun h => h value .self
  · intro h other within
    cases within with
    | self => exact h
    | child mem => cases mem

end Expression

end JsonQuery.Query
