import JsonQuery.Proofs.Query.RoundTrip
import JsonQuery.Proofs.Query.WellFormed

/-!
# The image of the compiler

A well-formed expression has a `spelling`, the tree in which every argument is written out, and
is what its spelling compiles to. So the image of the compiler is known (`compile_image`).
-/

namespace JsonQuery.Query

/-! ### Spelling expressions out -/

/-- The literal of a value. A value that has none is taken for `null`. -/
def Literal.ofValue : Value → Literal
  | .boolean b => .boolean b
  | .integer n => .integer n
  | .string s => .string s
  | _ => .null

theorem ofValue_spec {value : Value} (h : IsLiteral value) :
    (Literal.ofValue value).value = value ∧ (Token.literal (Literal.ofValue value)).Proper := by
  cases value with
  | integer n => exact ⟨rfl, h⟩
  | null | boolean | string => exact ⟨rfl, trivial⟩
  | float | array | object => exact h.elim

namespace Expression

/-- The literal of a constant, or the built-in function that makes the expression with all its
arguments. -/
def outermost : Expression → Literal ⊕ (Builtin × List Expression)
  | .constant value => .inl (.ofValue value)
  | .identity => .inr (.id, [])
  | .element positions leaf => .inr (.elem, [positions, leaf])
  | .keys => .inr (.keys, [])
  | .array items => .inr (.array, items)
  | .object pairs => .inr (.object, pairs.flatMap fun pair => [pair.1, pair.2])
  | .pipe stages => .inr (.pipe, stages)
  | .sprintf template args => .inr (.sprintf, template :: args)
  | .join items separator => .inr (.join, [items, separator])
  | .filter condition transform => .inr (.filter, [condition, transform])
  | .equal left right => .inr (.eq, [left, right])
  | .compare .lessThan left right => .inr (.lt, [left, right])
  | .compare .greaterThan left right => .inr (.gt, [left, right])
  | .range first bound => .inr (.range, [first, bound])
  | .and operands => .inr (.and, operands)
  | .or operands => .inr (.or, operands)
  | .not operand => .inr (.not, [operand])
  | .ifThenElse condition thenBranch elseBranch =>
    .inr (.ifte, [condition, thenBranch, elseBranch])
  | .error message => .inr (.error, [message])
  | .recover body => .inr (.recover, [body])

theorem mem_parts_of_outermost {e : Expression} {builtin : Builtin} {args : List Expression}
    (h : e.outermost = .inr (builtin, args)) {arg : Expression} (mem : arg ∈ args) :
    arg ∈ e.parts := by
  unfold outermost at h
  split at h
  case h_1 => cases h
  case h_2 | h_4 =>
    cases h
    cases mem
  all_goals
    cases h
    simpa [or_comm] using mem

/-- The tree of the expression with every argument written out. -/
def spelling (e : Expression) : Node :=
  match _outer : e.outermost with
  | .inl l => .literal l
  | .inr (builtin, args) => .call builtin.name (args.attach.map fun arg => arg.1.spelling)
termination_by sizeOf e
decreasing_by exact sizeOf_lt_of_mem (mem_parts_of_outermost _outer arg.2)

theorem constant_of_outermost {e : Expression} {l : Literal} (h : e.outermost = .inl l) :
    ∃ value, e = .constant value ∧ l = .ofValue value := by
  unfold outermost at h
  split at h
  case h_1 value =>
    cases h
    exact ⟨value, rfl, rfl⟩
  all_goals cases h

theorem spelling_constant (value : Value) :
    (Expression.constant value).spelling = .literal (.ofValue value) := by
  rw [spelling]
  rfl

theorem spelling_call {e : Expression} {builtin : Builtin} {args : List Expression}
    (h : e.outermost = .inr (builtin, args)) :
    e.spelling = .call builtin.name (args.map spelling) := by
  rw [spelling]
  split
  case h_1 other => rw [h] at other; cases other
  case h_2 same =>
    rw [h] at same
    cases same
    rw [List.attach_map_val]

/-- The function makes the expression of its arguments. A pipe without stages is the exception. -/
theorem assemble?_of_outermost {e : Expression} (formed : e.Formed) {builtin : Builtin}
    {args : List Expression} (h : e.outermost = .inr (builtin, args)) :
    builtin.assemble? args = some e := by
  unfold outermost at h
  split at h
  case h_1 => cases h
  case h_6 pairs =>
    cases h
    rw [Builtin.assemble?, pairUp?_flatten]
    rfl
  case h_7 =>
    cases h
    cases args with
    | nil => exact absurd rfl formed
    | cons => rfl
  all_goals
    cases h
    rfl

end Expression

theorem isIdentifier_name (builtin : Builtin) : IsIdentifier builtin.name := by
  cases builtin <;> decide

namespace Registry

theorem get?_standard (builtin : Builtin) : standard.get? builtin.name = some builtin.build := by
  cases builtin <;> rfl

theorem bindAll_eq_ok {registry : Registry} {f : Expression → Node} {es : List Expression}
    (h : ∀ e ∈ es, registry.bind (f e) = .ok e) : registry.bindAll (es.map f) = .ok es := by
  induction es with
  | nil => rfl
  | cons e rest ih =>
    obtain ⟨here, there⟩ := List.forall_mem_cons.mp h
    rw [List.map_cons, bindAll, here, ih there]
    rfl

end Registry

theorem legible_spelling {e : Expression} (h : e.WellFormed) : e.spelling.Legible := by
  induction e using Expression.induction_parts with
  | whole e ih =>
    obtain ⟨formed, parts⟩ := Expression.wellFormed_iff.mp h
    cases outer : e.outermost with
    | inl l =>
      obtain ⟨value, rfl, -⟩ := Expression.constant_of_outermost outer
      rw [Expression.spelling_constant]
      exact .literal (ofValue_spec formed).2
    | inr call =>
      obtain ⟨builtin, args⟩ := call
      rw [Expression.spelling_call outer]
      refine .call (isIdentifier_name builtin) fun node mem => ?_
      obtain ⟨arg, inside, rfl⟩ := List.mem_map.mp mem
      have part := Expression.mem_parts_of_outermost outer inside
      exact ih arg part (parts arg part)

theorem bind_spelling {e : Expression} (h : e.WellFormed) :
    Registry.standard.bind e.spelling = .ok e := by
  induction e using Expression.induction_parts with
  | whole e ih =>
    obtain ⟨formed, parts⟩ := Expression.wellFormed_iff.mp h
    cases outer : e.outermost with
    | inl l =>
      obtain ⟨value, rfl, -⟩ := Expression.constant_of_outermost outer
      rw [Expression.spelling_constant, Registry.bind, (ofValue_spec formed).1]
    | inr call =>
      obtain ⟨builtin, args⟩ := call
      have bound : Registry.standard.bindAll (args.map Expression.spelling) = .ok args := by
        refine Registry.bindAll_eq_ok fun arg mem => ?_
        have part := Expression.mem_parts_of_outermost outer mem
        exact ih arg part (parts arg part)
      have built := build_eq_ok_iff.mpr ⟨Expression.assemble?_of_outermost formed outer, formed⟩
      rw [Expression.spelling_call outer, Registry.bind, Registry.get?_standard]
      dsimp only
      rw [bound]
      exact built

/-- A compiled query is well-formed and has at most 257 levels, and every well-formed expression is
what its spelling compiles to, if that nests at most 256 lists. -/
theorem compile_image :
    (∀ query e, compile query = .ok e → e.WellFormed ∧ e.levels ≤ 257) ∧
      ∀ e : Expression, e.WellFormed → e.spelling.nesting ≤ 256 →
        compile e.spelling.text = .ok e := by
  refine ⟨fun query e compiled => wellFormed_of_compile compiled, fun e wellFormed small => ?_⟩
  have parsed := parse_write (legible_spelling wellFormed) small
  exact compileWith_eq_ok_iff.mpr ⟨e.spelling, parsed, bind_spelling wellFormed⟩

/-- Operators with arguments that a query may leave out. -/
def ranged : Expression :=
  .range (.constant (.integer 0)) (.join (.filter .keys .identity) (.constant (.string "")))

theorem wellFormed_ranged : ranged.WellFormed := by
  have identity := (wellFormed_default (e := .identity) (by simp [defaults])).1
  have empty := (wellFormed_default (e := .constant (.string "")) (by simp [defaults])).1
  have zero := (wellFormed_default (e := .constant (.integer 0)) (by simp [defaults])).1
  have keys : Expression.keys.WellFormed :=
    Expression.wellFormed_iff.mpr ⟨trivial, List.forall_mem_nil _⟩
  have filter : (Expression.filter .keys .identity).WellFormed :=
    Expression.wellFormed_iff.mpr ⟨trivial, by simp [keys, identity]⟩
  have join : (Expression.join (.filter .keys .identity) (.constant (.string ""))).WellFormed := by
    refine Expression.wellFormed_iff.mpr ⟨fun value same => ?_, by simp [filter, empty]⟩
    cases same
    rfl
  have bounds : ranged.Formed := by
    constructor <;> intro value same <;> cases same
    rfl
  exact Expression.wellFormed_iff.mpr ⟨bounds, by simp [ranged, join, zero]⟩

theorem spelling_ranged : ranged.spelling =
    .call "range" [.literal (.integer 0), .call "join" [.call "filter" [.call "keys" [],
      .call "id" []], .literal (.string "")]] := by
  cbv

theorem compile_image_ranged :
    ranged.spelling.text = "(range 0 (join (filter (keys) (id)) \"\"))" ∧
      compile ranged.spelling.text = .ok ranged := by
  have small : ranged.spelling.nesting ≤ 256 := by
    rw [spelling_ranged]
    decide
  refine ⟨?_, compile_image.2 ranged wellFormed_ranged small⟩
  rw [spelling_ranged]
  decide +kernel

end JsonQuery.Query
