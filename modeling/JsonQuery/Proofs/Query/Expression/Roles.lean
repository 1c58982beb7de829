import JsonQuery.Proofs.Query.Expression.Addressing

/-!
# Parts with a role

Keys, templates, separators and bounds of ranges must be strings or integers. A constructor looks at
the constants among them, and the evaluation at the value of each when it gets there (`Raises`). The
two agree: an expression that a constructor rejects cannot be evaluated on any input, and in one that
it makes no constant is to blame for an error of this kind (`build_roles`).
-/

namespace JsonQuery.Query

theorem eq_string_of_kind {v : Value} (h : v.kind = .string) : ∃ s, v = .string s := by
  cases v with
  | string s => exact ⟨s, rfl⟩
  | _ => cases h

/-- The errors that say that a value cannot fill its role. -/
def EvalError.concernsRole : EvalError → Bool
  | objectKey .. | template _ | separator _ | rangeBound .. => true
  | _ => false

/-! ### Errors of one operator -/

section Operators

variable {failure : EvalError}

theorem error_of_filterItems {condition transform : Value → Result Value} {items : List Value}
    (h : filterItems condition transform items = .error failure) :
    ∃ item, condition item = .error failure ∨ transform item = .error failure := by
  induction items with
  | nil => cases h
  | cons item rest ih =>
    rcases bind_eq_error_iff.mp h with here | ⟨verdict, -, h⟩
    · exact ⟨item, Or.inl here⟩
    · split at h
      · rcases bind_eq_error_iff.mp h with here | ⟨value, -, h⟩
        · exact ⟨item, Or.inr here⟩
        · rcases bind_eq_error_iff.mp h with there | ⟨values, -, h⟩
          · exact ih there
          · cases h
      · exact ih h

theorem error_of_address {leaf : Value → Result Value} {parts : Parts} {position : Value}
    (h : address leaf parts position = .error failure) :
    failure.concernsRole = false ∨ ∃ v, leaf v = .error failure := by
  unfold address at h
  split at h
  · split at h
    · split at h
      · exact Or.inr ⟨_, h⟩
      · cases h
    · cases h
      exact Or.inl rfl
  · split at h
    · split at h
      · exact Or.inr ⟨_, h⟩
      · cases h
    · cases h
      exact Or.inl rfl
  · cases h
    exact Or.inl rfl

/-- An error of resolved positions is about a position, or a leaf has it. -/
theorem error_of_resolve {leaf : Value → Result Value} {parts : Parts} {positions : Value}
    (h : resolve leaf parts positions = .error failure) :
    failure.concernsRole = false ∨ ∃ v, leaf v = .error failure := by
  rw [resolve_eq] at h
  cases first : firstFailure? leaf parts positions.scalars with
  | none =>
    rw [first] at h
    cases h
  | some other =>
    rw [first] at h
    cases h
    obtain ⟨position, -, failed⟩ := List.exists_of_findSome?_eq_some first
    cases addressed : address leaf parts position with
    | ok v =>
      rw [addressed] at failed
      cases failed
    | error e =>
      rw [addressed] at failed
      cases failed
      exact error_of_address addressed

theorem error_of_rangeBound {bound : Bound} {v : Value}
    (h : rangeBound bound v = .error failure) :
    v.kind ≠ .integer ∧ failure = .rangeBound bound v.kind := by
  cases v with
  | integer => cases h
  | _ =>
    cases h
    exact ⟨nofun, rfl⟩

theorem concernsRole_of_keysOf {v : Value} (h : keysOf v = .error failure) :
    failure.concernsRole = false := by
  unfold keysOf at h
  split at h
  · split at h
    · cases h
    · cases h
      rfl
  · cases h
  · cases h
    rfl

theorem concernsRole_of_rangeOf [Platform] {first last : Int64}
    (h : rangeOf first last = .error failure) : failure.concernsRole = false := by
  unfold rangeOf at h
  dsimp only at h
  split at h
  · cases h
  split at h
  · cases h
  · cases h
    rfl

end Operators

namespace Expression

variable [Platform]

/-- The key is evaluated to a string, and so is the value to anything. -/
def PairEvaluates (input : Value) (pair : Expression × Expression) : Prop :=
  (∃ s, pair.1.evaluate input = .ok (.string s)) ∧ ∃ v, pair.2.evaluate input = .ok v

/-- The evaluation of an expression on `input` gets to a part that has a role, and the value of this
part is not of the kind that the role asks for. The part comes second, and then the error. -/
inductive Raises (input : Value) : Expression → Expression → EvalError → Prop where
  | key {before after : List (Expression × Expression)} {key value : Expression} {found : Value}
      (earlier : ∀ pair ∈ before, PairEvaluates input pair)
      (evaluated : key.evaluate input = .ok found) (other : found.kind ≠ .string) :
      Raises input (.object (before ++ (key, value) :: after)) key
        (.objectKey before.length found.kind)
  | template {template : Expression} {args : List Expression} {found : Value}
      (evaluated : template.evaluate input = .ok found) (other : found.kind ≠ .string) :
      Raises input (.sprintf template args) template (.template found.kind)
  | separator {items separator : Expression} {found : Value}
      (evaluated : separator.evaluate input = .ok found) (other : found.kind ≠ .string) :
      Raises input (.join items separator) separator (.separator found.kind)
  | first {first last : Expression} {found : Value}
      (evaluated : first.evaluate input = .ok found) (other : found.kind ≠ .integer) :
      Raises input (.range first last) first (.rangeBound .first found.kind)
  | last {first last : Expression} {n : Int64} {found : Value}
      (earlier : first.evaluate input = .ok (.integer n))
      (evaluated : last.evaluate input = .ok found) (other : found.kind ≠ .integer) :
      Raises input (.range first last) last (.rangeBound .last found.kind)

/-- Where the error comes from with which the evaluation of an expression ends. -/
inductive Source (input : Value) (e : Expression) (failure : EvalError) : Prop where
  | own (other : failure.concernsRole = false)
  | operand {part : Expression} (mem : part ∈ e.operands)
      (failed : part.evaluate input = .error failure)
  | leaf {part : Expression} {v : Value} (mem : part ∈ e.leaves)
      (failed : part.evaluate v = .error failure)
  | stage {part : Expression} {v : Value} (mem : part ∈ e.stages)
      (failed : part.evaluate v = .error failure)
  | role {part : Expression} (raised : Raises input e part failure)

variable {e part : Expression} {input w : Value} {failure : EvalError}

/-! ### Errors of lists -/

theorem error_of_evaluateAll {es : List Expression}
    (h : evaluateAll es input = .error failure) : ∃ e ∈ es, e.evaluate input = .error failure := by
  induction es with
  | nil => cases h
  | cons e rest ih =>
    rcases bind_eq_error_iff.mp h with here | ⟨value, -, h⟩
    · exact ⟨e, List.mem_cons_self, here⟩
    · rcases bind_eq_error_iff.mp h with there | ⟨values, -, h⟩
      · obtain ⟨other, mem, failed⟩ := ih there
        exact ⟨other, List.mem_cons_of_mem e mem, failed⟩
      · cases h

theorem error_of_evaluateAnd {operands : List Expression}
    (h : evaluateAnd operands input = .error failure) :
    ∃ e ∈ operands, e.evaluate input = .error failure := by
  induction operands with
  | nil => cases h
  | cons operand rest ih =>
    rcases bind_eq_error_iff.mp h with here | ⟨value, -, h⟩
    · exact ⟨operand, List.mem_cons_self, here⟩
    · split at h
      · obtain ⟨other, mem, failed⟩ := ih h
        exact ⟨other, List.mem_cons_of_mem operand mem, failed⟩
      · cases h

theorem error_of_evaluateOr {operands : List Expression}
    (h : evaluateOr operands input = .error failure) :
    ∃ e ∈ operands, e.evaluate input = .error failure := by
  induction operands with
  | nil => cases h
  | cons operand rest ih =>
    rcases bind_eq_error_iff.mp h with here | ⟨value, -, h⟩
    · exact ⟨operand, List.mem_cons_self, here⟩
    · split at h
      · cases h
      · obtain ⟨other, mem, failed⟩ := ih h
        exact ⟨other, List.mem_cons_of_mem operand mem, failed⟩

theorem error_of_evaluatePipe {inner : List Expression}
    (h : evaluatePipe inner input = .error failure) :
    ∃ e ∈ inner, ∃ v, e.evaluate v = .error failure := by
  induction inner generalizing input with
  | nil => cases h
  | cons stage rest ih =>
    rcases bind_eq_error_iff.mp h with here | ⟨between, -, h⟩
    · exact ⟨stage, List.mem_cons_self, input, here⟩
    · obtain ⟨other, mem, v, failed⟩ := ih h
      exact ⟨other, List.mem_cons_of_mem stage mem, v, failed⟩

/-- Pairs fail at a part of one of them, or at a key that is no string. -/
theorem error_of_evaluatePairs {pairs : List (Expression × Expression)} {index : Nat}
    (h : evaluatePairs index pairs input = .error failure) :
    (∃ pair ∈ pairs, pair.1.evaluate input = .error failure ∨
      pair.2.evaluate input = .error failure) ∨
    ∃ before key value after found, pairs = before ++ (key, value) :: after ∧
      (∀ pair ∈ before, PairEvaluates input pair) ∧ key.evaluate input = .ok found ∧
      found.kind ≠ .string ∧ failure = .objectKey (index + before.length) found.kind := by
  induction pairs generalizing index with
  | nil => cases h
  | cons pair rest ih =>
    obtain ⟨key, value⟩ := pair
    rcases bind_eq_error_iff.mp h with here | ⟨name, named, h⟩
    · exact Or.inl ⟨(key, value), List.mem_cons_self, Or.inl here⟩
    by_cases string : name.kind = .string
    · obtain ⟨s, rfl⟩ := eq_string_of_kind string
      rcases bind_eq_error_iff.mp h with here | ⟨v, valued, h⟩
      · exact Or.inl ⟨(key, value), List.mem_cons_self, Or.inr here⟩
      rcases bind_eq_error_iff.mp h with there | ⟨values, -, h⟩
      · rcases ih there with ⟨pair, mem, failed⟩ | ⟨before, key', value', after, found, rfl, settled,
          evaluated, other, rfl⟩
        · exact Or.inl ⟨pair, List.mem_cons_of_mem _ mem, failed⟩
        · refine Or.inr ⟨(key, value) :: before, key', value', after, found, rfl, ?_, evaluated, other,
            ?_⟩
          · exact List.forall_mem_cons.mpr ⟨⟨⟨s, named⟩, v, valued⟩, settled⟩
          · rw [List.length_cons, Nat.add_assoc, Nat.add_comm 1]
      · cases h
    · refine Or.inr ⟨[], key, value, rest, name, rfl, List.forall_mem_nil _, named, string, ?_⟩
      cases name with
      | string => exact absurd rfl string
      | _ =>
        cases h
        rfl

/-! ### Operators with roles -/

theorem source_of_object {pairs : List (Expression × Expression)}
    (h : (object pairs).evaluate input = .error failure) : Source input (object pairs) failure := by
  rcases bind_eq_error_iff.mp h with here | ⟨values, -, h⟩
  · rcases error_of_evaluatePairs here with ⟨pair, mem, key | value⟩ |
      ⟨before, key, value, after, found, rfl, earlier, evaluated, other, rfl⟩
    · exact .operand (List.mem_flatMap.mpr ⟨pair, mem, List.mem_cons_self⟩) key
    · exact .operand
        (List.mem_flatMap.mpr ⟨pair, mem, List.mem_cons_of_mem _ List.mem_cons_self⟩) value
    · rw [Nat.zero_add]
      exact .role (.key earlier evaluated other)
  · cases h

theorem source_of_sprintf {template : Expression} {args : List Expression}
    (h : (sprintf template args).evaluate input = .error failure) :
    Source input (sprintf template args) failure := by
  rcases bind_eq_error_iff.mp h with here | ⟨found, evaluated, h⟩
  · exact .operand List.mem_cons_self here
  split at h
  · rcases bind_eq_error_iff.mp h with there | ⟨values, -, h⟩
    · obtain ⟨arg, mem, failed⟩ := error_of_evaluateAll there
      exact .operand (List.mem_cons_of_mem _ mem) failed
    · cases h
  case h_2 other =>
    cases h
    refine .role (.template evaluated fun string => ?_)
    obtain ⟨s, rfl⟩ := eq_string_of_kind string
    exact other s rfl

theorem source_of_join {items separator : Expression}
    (h : (join items separator).evaluate input = .error failure) :
    Source input (join items separator) failure := by
  rcases bind_eq_error_iff.mp h with here | ⟨found, evaluated, h⟩
  · exact .operand List.mem_cons_self here
  split at h
  · rcases bind_eq_error_iff.mp h with there | ⟨values, -, h⟩
    · exact .operand (List.mem_cons_of_mem _ List.mem_cons_self) there
    · cases h
  case h_2 other =>
    cases h
    refine .role (.separator evaluated fun string => ?_)
    obtain ⟨s, rfl⟩ := eq_string_of_kind string
    exact other s rfl

theorem source_of_range {first last : Expression}
    (h : (range first last).evaluate input = .error failure) :
    Source input (range first last) failure := by
  rcases bind_eq_error_iff.mp h with here | ⟨found, evaluated, h⟩
  · exact .operand List.mem_cons_self here
  rcases bind_eq_error_iff.mp h with misfit | ⟨n, fits, h⟩
  · obtain ⟨other, rfl⟩ := error_of_rangeBound misfit
    exact .role (.first evaluated other)
  rcases bind_eq_error_iff.mp h with there | ⟨found', evaluated', h⟩
  · exact .operand (List.mem_cons_of_mem _ List.mem_cons_self) there
  rcases bind_eq_error_iff.mp h with misfit | ⟨m, -, h⟩
  · obtain rfl := integer_of_rangeBound fits
    obtain ⟨other, rfl⟩ := error_of_rangeBound misfit
    exact .role (.last evaluated evaluated' other)
  · exact .own (concernsRole_of_rangeOf h)

/-- An operator has an error of its own, passes on one of a part, or finds the wrong kind of value
in a role. -/
theorem source_of_evaluate (h : e.evaluate input = .error failure) : Source input e failure := by
  cases e with
  | constant | identity => cases h
  | element positions leaf =>
    rcases bind_eq_error_iff.mp h with here | ⟨located, -, h⟩
    · exact .operand List.mem_cons_self here
    · rcases error_of_resolve h with other | ⟨v, failed⟩
      · exact .own other
      · exact .leaf List.mem_cons_self failed
  | keys => exact .own (concernsRole_of_keysOf h)
  | array items =>
    rcases bind_eq_error_iff.mp h with here | ⟨values, -, h⟩
    · obtain ⟨item, mem, failed⟩ := error_of_evaluateAll here
      exact .operand mem failed
    · cases h
  | object pairs => exact source_of_object h
  | pipe stages =>
    obtain ⟨stage, mem, v, failed⟩ := error_of_evaluatePipe h
    exact .stage mem failed
  | sprintf template args => exact source_of_sprintf h
  | join items separator => exact source_of_join h
  | filter condition transform =>
    cases input with
    | array items =>
      rcases bind_eq_error_iff.mp h with here | ⟨values, -, h⟩
      · obtain ⟨item, failed | failed⟩ := error_of_filterItems here
        · exact .leaf List.mem_cons_self failed
        · exact .leaf (List.mem_cons_of_mem _ List.mem_cons_self) failed
      · cases h
    | _ =>
      cases h
      exact .own rfl
  | equal left right | compare _ left right =>
    rcases bind_eq_error_iff.mp h with here | ⟨first, -, h⟩
    · exact .operand List.mem_cons_self here
    · rcases bind_eq_error_iff.mp h with there | ⟨second, -, h⟩
      · exact .operand (List.mem_cons_of_mem _ List.mem_cons_self) there
      · cases h
  | range first last => exact source_of_range h
  | and operands =>
    obtain ⟨operand, mem, failed⟩ := error_of_evaluateAnd h
    exact .operand mem failed
  | or operands =>
    obtain ⟨operand, mem, failed⟩ := error_of_evaluateOr h
    exact .operand mem failed
  | not operand =>
    rcases bind_eq_error_iff.mp h with here | ⟨value, -, h⟩
    · exact .operand List.mem_cons_self here
    · cases h
  | ifThenElse condition thenBranch elseBranch =>
    rcases bind_eq_error_iff.mp h with here | ⟨verdict, -, h⟩
    · exact .operand List.mem_cons_self here
    split at h
    · exact .operand (List.mem_cons_of_mem _ List.mem_cons_self) h
    · exact .operand (List.mem_cons_of_mem _ (List.mem_cons_of_mem _ List.mem_cons_self)) h
  | error message =>
    rcases bind_eq_error_iff.mp h with here | ⟨value, -, h⟩
    · exact .operand List.mem_cons_self here
    · cases h
      exact .own rfl
  | recover body =>
    rw [evaluate] at h
    split at h <;> cases h

/-! ### Values of parts that have a role -/

theorem evaluates_of_evaluatePairs {pairs : List (Expression × Expression)} {index : Nat}
    {values : List (String × Value)} (h : evaluatePairs index pairs input = .ok values) :
    ∀ pair ∈ pairs, PairEvaluates input pair := by
  induction pairs generalizing index values with
  | nil => exact nofun
  | cons pair rest ih =>
    obtain ⟨name, named, h⟩ := bind_eq_ok_iff.mp h
    split at h
    case h_1 =>
      obtain ⟨v, valued, h⟩ := bind_eq_ok_iff.mp h
      obtain ⟨others, there, -⟩ := bind_eq_ok_iff.mp h
      exact List.forall_mem_cons.mpr ⟨⟨⟨_, named⟩, v, valued⟩, ih there⟩
    case h_2 => cases h

/-- Where an expression has a value, its parts have values that can fill their roles. -/
theorem kinds_of_evaluate (h : e.evaluate input = .ok w) :
    ∀ part ∈ e.roles, ∃ v, part.2.evaluate input = .ok v ∧ v.kind = part.1.kind := by
  cases e with
  | object pairs =>
    obtain ⟨values, paired, -⟩ := bind_eq_ok_iff.mp h
    refine List.forall_mem_map.mpr fun pair mem => ?_
    obtain ⟨⟨s, named⟩, -⟩ := evaluates_of_evaluatePairs paired pair mem
    exact ⟨.string s, named, rfl⟩
  | sprintf template args =>
    obtain ⟨found, evaluated, h⟩ := bind_eq_ok_iff.mp h
    split at h
    case h_1 s => exact List.forall_mem_singleton.mpr ⟨.string s, evaluated, rfl⟩
    case h_2 => cases h
  | join items separator =>
    obtain ⟨found, evaluated, h⟩ := bind_eq_ok_iff.mp h
    split at h
    case h_1 s => exact List.forall_mem_singleton.mpr ⟨.string s, evaluated, rfl⟩
    case h_2 => cases h
  | range first last =>
    obtain ⟨found, evaluated, h⟩ := bind_eq_ok_iff.mp h
    obtain ⟨n, fits, h⟩ := bind_eq_ok_iff.mp h
    obtain ⟨found', evaluated', h⟩ := bind_eq_ok_iff.mp h
    obtain ⟨m, fits', -⟩ := bind_eq_ok_iff.mp h
    obtain rfl := integer_of_rangeBound fits
    obtain rfl := integer_of_rangeBound fits'
    exact List.forall_mem_cons.mpr ⟨⟨.integer n, evaluated, rfl⟩,
      List.forall_mem_singleton.mpr ⟨.integer m, evaluated', rfl⟩⟩
  | _ => exact nofun

/-- An expression with a constant that cannot fill its role has a value on no input. -/
theorem exists_error_of_misfit {role : Role} {value : Value}
    (mem : (role, .constant value) ∈ e.roles) (other : value.kind ≠ role.kind) (input : Value) :
    ∃ failure, e.evaluate input = .error failure := by
  cases evaluated : e.evaluate input with
  | error failure => exact ⟨failure, rfl⟩
  | ok w =>
    obtain ⟨v, constant, kind⟩ := kinds_of_evaluate evaluated _ mem
    cases constant
    exact absurd kind other

theorem not_raises_constant {value : Value} (formed : e.Formed) :
    ¬ Raises input e (.constant value) failure := by
  intro raised
  cases raised with
  | key earlier evaluated other =>
    cases evaluated
    exact other (formed _ (List.mem_append_right _ List.mem_cons_self) value rfl)
  | template evaluated other | separator evaluated other =>
    cases evaluated
    exact other (formed value rfl)
  | first evaluated other =>
    cases evaluated
    exact other (formed.1 value rfl)
  | last earlier evaluated other =>
    cases evaluated
    exact other (formed.2 value rfl)

/-! ### Errors of whole expressions -/

theorem evaluatePairs_of_key {before after : List (Expression × Expression)}
    {key value : Expression} {found : Value} (index : Nat)
    (earlier : ∀ pair ∈ before, PairEvaluates input pair)
    (evaluated : key.evaluate input = .ok found) (other : found.kind ≠ .string) :
    evaluatePairs index (before ++ (key, value) :: after) input =
      .error (.objectKey (index + before.length) found.kind) := by
  induction before generalizing index with
  | nil =>
    rw [List.nil_append, evaluatePairs, evaluated]
    cases found with
    | string => exact absurd rfl other
    | _ => rfl
  | cons pair rest ih =>
    obtain ⟨⟨⟨s, named⟩, v, valued⟩, earlier⟩ := List.forall_mem_cons.mp earlier
    have there := ih (index + 1) earlier
    rw [Nat.add_assoc, Nat.add_comm 1] at there
    apply bind_eq_error_iff.mpr
    refine Or.inr ⟨.string s, named, bind_eq_error_iff.mpr (Or.inr ⟨v, valued, ?_⟩)⟩
    exact bind_eq_error_iff.mpr (Or.inl there)

theorem evaluate_of_raises (raised : Raises input e part failure) :
    e.evaluate input = .error failure := by
  cases raised with
  | key earlier evaluated other =>
    rw [evaluate, evaluatePairs_of_key 0 earlier evaluated other, Nat.zero_add]
    rfl
  | @template template _ found evaluated other =>
    rw [evaluate, evaluated]
    cases found with
    | string => exact absurd rfl other
    | _ => rfl
  | @separator _ _ found evaluated other =>
    rw [evaluate, evaluated]
    cases found with
    | string => exact absurd rfl other
    | _ => rfl
  | @first _ _ found evaluated other =>
    rw [evaluate, evaluated]
    cases found with
    | integer => exact absurd rfl other
    | _ => rfl
  | @last _ _ n found earlier evaluated other =>
    rw [evaluate, earlier, evaluated]
    cases found with
    | integer => exact absurd rfl other
    | _ => rfl

/-- An error about a role comes from a part of the expression at some depth, on some value. -/
theorem exists_raises_of_evaluate (h : e.evaluate input = .error failure)
    (concerns : failure.concernsRole = true) :
    ∃ node part v, Within node e ∧ Raises v node part failure := by
  induction e using induction_parts generalizing input with
  | whole e ih =>
    have inside {part : Expression} {v : Value} (mem : part ∈ e.parts)
        (failed : part.evaluate v = .error failure) :
        ∃ node part v, Within node e ∧ Raises v node part failure := by
      obtain ⟨node, part, v, within, raised⟩ := ih _ mem failed
      exact ⟨node, part, v, .child mem within, raised⟩
    cases source_of_evaluate h with
    | own other => exact absurd concerns (Bool.eq_false_iff.mp other)
    | operand mem failed => exact inside (mem_parts.mpr (Or.inl mem)) failed
    | leaf mem failed => exact inside (mem_parts.mpr (Or.inr (Or.inl mem))) failed
    | stage mem failed => exact inside (mem_parts.mpr (Or.inr (Or.inr mem))) failed
    | role raised => exact ⟨e, _, input, .self, raised⟩

end Expression

theorem exists_constant_of_misfit? {role : Role} {part : Expression} {kind : Kind}
    (h : role.misfit? part = some kind) :
    ∃ value, part = .constant value ∧ value.kind ≠ role.kind ∧ kind = value.kind := by
  unfold Role.misfit? at h
  split at h
  · split at h
    · cases h
    case isFalse other =>
      cases h
      exact ⟨_, rfl, other, rfl⟩
  · cases h

/-- What an accepted number of arguments makes is either fine or has a constant that cannot fill its
role. -/
theorem build_of_assemble? {builtin : Builtin} {args : List Expression} {e : Expression}
    (made : builtin.assemble? args = some e) :
    builtin.build args = .ok e ∧ e.Formed ∨
      ∃ role value, (role, .constant value) ∈ e.roles ∧ value.kind ≠ role.kind ∧
        builtin.build args = .error (.shape builtin.name (role.complaint value.kind)) := by
  cases built : builtin.build args with
  | ok e' =>
    obtain ⟨made', formed⟩ := build_eq_ok_iff.mp built
    obtain rfl := Option.some.inj (made.symm.trans made')
    exact Or.inl ⟨rfl, formed⟩
  | error rejected =>
    unfold Builtin.build at built
    rw [made] at built
    dsimp only at built
    split at built
    case h_1 role got first =>
      cases built
      obtain ⟨⟨role, part⟩, mem, misfit⟩ := List.exists_of_findSome?_eq_some first
      obtain ⟨kind, unfit, same⟩ := Option.map_eq_some_iff.mp misfit
      obtain ⟨value, rfl, other, rfl⟩ := exists_constant_of_misfit? unfit
      cases same
      exact Or.inr ⟨role, value, mem, other, rfl⟩
    case h_2 => cases built

/-- An expression that a constructor rejects for a constant has a value on no input. In one that it
makes, no constant raises an error about its role, and neither does any constant in a compiled
query; every such error is raised by another part with a role. -/
theorem build_roles [Platform] :
    (∀ (builtin : Builtin) (args : List Expression),
      builtin.arity.accepts args.length = true →
      ∃ e, builtin.assemble? args = some e ∧
        ((∃ role got,
              builtin.build args = .error (.shape builtin.name (Role.complaint role got))) ∧
            (∀ input, ∃ failure, e.evaluate input = .error failure) ∨
          builtin.build args = .ok e ∧
            ∀ input value failure, ¬ Expression.Raises input e (.constant value) failure)) ∧
    (∀ (e part : Expression) (input : Value) (failure : EvalError),
      Expression.Raises input e part failure → e.evaluate input = .error failure) ∧
    (∀ (e : Expression) (input : Value) (failure : EvalError),
      e.evaluate input = .error failure → failure.concernsRole = true →
      ∃ node part v, Expression.Within node e ∧ Expression.Raises v node part failure) ∧
    ∀ (query : String) (e : Expression), compile query = .ok e →
      ∀ node, Expression.Within node e →
        ∀ input value failure, ¬ Expression.Raises input node (.constant value) failure := by
  refine ⟨fun builtin args accepted => ?_, fun e part input failure =>
    Expression.evaluate_of_raises, fun e input failure => Expression.exists_raises_of_evaluate,
    fun query e compiled node within input value failure => ?_⟩
  · rw [← Builtin.isSome_assemble?] at accepted
    obtain ⟨e, made⟩ := Option.isSome_iff_exists.mp accepted
    refine ⟨e, made, ?_⟩
    rcases build_of_assemble? made with ⟨built, formed⟩ | ⟨role, value, mem, other, rejected⟩
    · exact Or.inr ⟨built, fun input value failure => Expression.not_raises_constant formed⟩
    · exact Or.inl ⟨⟨role, value.kind, rejected⟩, Expression.exists_error_of_misfit mem other⟩
  · exact Expression.not_raises_constant ((wellFormed_of_compile compiled).1 node within)

theorem build_roles_second_key :
    (∀ input, ∃ failure, (Expression.range (.constant (.integer 0))
      (.constant (.string "9"))).evaluate input = .error failure) ∧
    ∃ e node part v, compile "(object \"k\" 1 (keys) 2)" = .ok e ∧
      e.evaluate (.array []) = .error (.objectKey 1 .array) ∧ Expression.Within node e ∧
      Expression.Raises v node part (.objectKey 1 .array) ∧ ∀ value, part ≠ .constant value := by
  obtain ⟨accepted, -, provenance, constants⟩ := build_roles
  constructor
  · obtain ⟨e, made, ⟨-, fails⟩ | ⟨built, -⟩⟩ := accepted .range [.constant (.string "9")] rfl
    · cases made
      exact fails
    · cases built
  · have compiled : compile "(object \"k\" 1 (keys) 2)" = .ok (.object
        [(.constant (.string "k"), .constant (.integer 1)), (.keys, .constant (.integer 2))]) := by
      cbv
    have failed : (Expression.object [(.constant (.string "k"), .constant (.integer 1)),
        (.keys, .constant (.integer 2))]).evaluate (.array []) =
        .error (.objectKey 1 .array) := by rfl
    obtain ⟨node, part, v, within, raised⟩ := provenance _ _ _ failed rfl
    refine ⟨_, node, part, v, compiled, failed, within, raised, ?_⟩
    rintro value rfl
    exact constants _ _ compiled node within v value _ raised

end JsonQuery.Query
