import JsonQuery.Proofs.Query.Binding
import JsonQuery.Proofs.Query.Expression.Parts

/-!
# Well-formed expressions

What a constructor makes sure of, at every part of an expression (`WellFormed`), and how many levels
an expression has. Compiled queries are well-formed (`wellFormed_of_compile`), so their constants
are values that literals stand for (`constants_of_compile`).
-/

namespace JsonQuery.Query

/-- A value that a literal of a query can stand for. -/
def IsLiteral : Value → Prop
  | .null | .boolean _ | .string _ => True
  | .integer n => 0 ≤ n
  | _ => False

theorem isLiteral_value {l : Literal} (proper : (Token.literal l).Proper) : IsLiteral l.value := by
  cases l with
  | integer n => exact proper
  | _ => trivial

namespace Expression

/-- A constant of this kind, or no constant at all. -/
def Admits (kind : Kind) (e : Expression) : Prop := ∀ value, e = .constant value → value.kind = kind

/-- What the outermost operator asks of its own parts. -/
def Formed : Expression → Prop
  | .constant value => IsLiteral value
  | .pipe stages => stages ≠ []
  | .object pairs => ∀ pair ∈ pairs, pair.1.Admits .string
  | .sprintf template _ => template.Admits .string
  | .join _ separator => separator.Admits .string
  | .range first bound => first.Admits .integer ∧ bound.Admits .integer
  | _ => True

def WellFormed (e : Expression) : Prop := ∀ part, Within part e → part.Formed

theorem wellFormed_iff {e : Expression} :
    e.WellFormed ↔ e.Formed ∧ ∀ part ∈ e.parts, part.WellFormed := by
  constructor
  · exact fun h => ⟨h e .self, fun part mem inner within => h inner (.child mem within)⟩
  · rintro ⟨formed, parts⟩ inner within
    cases within with
    | self => exact formed
    | child mem within => exact parts _ mem inner within

/-- How many expressions are inside one another at most, this one included. -/
def levels (e : Expression) : Nat :=
  (e.parts.attach.map fun part => part.1.levels).foldr max 0 + 1
termination_by sizeOf e
decreasing_by exact sizeOf_lt_of_mem part.2

theorem foldr_max_le_iff {counts : List Nat} {bound : Nat} :
    counts.foldr max 0 ≤ bound ↔ ∀ count ∈ counts, count ≤ bound := by
  induction counts with
  | nil => simp
  | cons count rest ih => rw [List.foldr_cons, Nat.max_le, ih, List.forall_mem_cons]

theorem levels_le_iff {e : Expression} {bound : Nat} :
    e.levels ≤ bound + 1 ↔ ∀ part ∈ e.parts, part.levels ≤ bound := by
  rw [levels, Nat.add_le_add_iff_right, List.attach_map_val, foldr_max_le_iff, List.forall_mem_map]

theorem misfit?_eq_none_iff {role : Role} {e : Expression} :
    role.misfit? e = none ↔ e.Admits role.kind := by
  constructor
  · rintro fits value rfl
    by_contra other
    rw [Role.misfit?, if_neg other] at fits
    cases fits
  · intro admits
    unfold Role.misfit?
    split
    · exact if_pos (admits _ rfl)
    · rfl

end Expression

theorem formed_iff_of_assemble? {builtin : Builtin} {args : List Expression} {e : Expression}
    (h : builtin.assemble? args = some e) :
    e.Formed ↔ ∀ part ∈ e.roles, part.2.Admits part.1.kind := by
  unfold Builtin.assemble? at h
  split at h
  case h_6 =>
    obtain ⟨pairs, -, rfl⟩ := Option.map_eq_some_iff.mp h
    simp only [Expression.Formed, Expression.roles, List.forall_mem_map, Role.kind]
  case h_24 => cases h
  all_goals
    cases h
    simp [Expression.Formed, Expression.roles, Role.kind]

theorem assemble?_of_build {builtin : Builtin} {args : List Expression} {e : Expression}
    (h : builtin.build args = .ok e) : builtin.assemble? args = some e := by
  unfold Builtin.build at h
  split at h
  · cases h
  case h_2 made =>
    split at h
    · cases h
    · cases h
      exact made

/-- A constructor checks the number of its arguments and the form of what it makes. -/
theorem build_eq_ok_iff {builtin : Builtin} {args : List Expression} {e : Expression} :
    builtin.build args = .ok e ↔ builtin.assemble? args = some e ∧ e.Formed := by
  constructor
  · intro h
    have made := assemble?_of_build h
    refine ⟨made, (formed_iff_of_assemble? made).mpr fun part mem => ?_⟩
    rw [Builtin.build, made] at h
    dsimp only at h
    split at h
    · cases h
    case h_2 fits =>
      have fit := List.findSome?_eq_none_iff.mp fits part mem
      exact Expression.misfit?_eq_none_iff.mp (Option.map_eq_none_iff.mp fit)
  · rintro ⟨made, formed⟩
    have admits := (formed_iff_of_assemble? made).mp formed
    have fits : (e.roles.findSome? fun part => (part.1.misfit? part.2).map (part.1, ·)) = none := by
      refine List.findSome?_eq_none_iff.mpr fun part mem => ?_
      rw [Expression.misfit?_eq_none_iff.mpr (admits part mem), Option.map_none]
    rw [Builtin.build, made]
    dsimp only
    rw [fits]

/-! ### From queries -/

theorem wellFormed_default {e : Expression} (mem : e ∈ defaults) :
    e.WellFormed ∧ e.levels ≤ 1 := by
  simp only [defaults, List.mem_cons, List.not_mem_nil, or_false] at mem
  rw [Expression.wellFormed_iff, Expression.levels_le_iff]
  rcases mem with rfl | rfl | rfl
  · exact ⟨⟨trivial, List.forall_mem_nil _⟩, List.forall_mem_nil _⟩
  · exact ⟨⟨trivial, List.forall_mem_nil _⟩, List.forall_mem_nil _⟩
  · exact ⟨⟨show (0 : Int64) ≤ 0 by decide, List.forall_mem_nil _⟩, List.forall_mem_nil _⟩

theorem wellFormed_of_build {builtin : Builtin} {args : List Expression} {e : Expression}
    {bound : Nat} (h : builtin.build args = .ok e)
    (inArgs : ∀ arg ∈ args, arg.WellFormed ∧ arg.levels ≤ bound + 1) :
    e.WellFormed ∧ e.levels ≤ bound + 2 := by
  obtain ⟨made, formed⟩ := build_eq_ok_iff.mp h
  have parts : ∀ part ∈ e.parts, part.WellFormed ∧ part.levels ≤ bound + 1 := by
    intro part mem
    rcases parts_of_assemble? made part mem with mem | mem
    · exact inArgs part mem
    · have ⟨wellFormed, levels⟩ := wellFormed_default mem
      exact ⟨wellFormed, by omega⟩
  exact ⟨Expression.wellFormed_iff.mpr ⟨formed, fun part mem => (parts part mem).1⟩,
    Expression.levels_le_iff.mpr fun part mem => (parts part mem).2⟩

theorem bindable_wellFormed :
    Bindable fun node e => e.WellFormed ∧ e.levels ≤ node.nesting + 1 where
  literal l proper :=
    ⟨Expression.wellFormed_iff.mpr ⟨isLiteral_value proper, nofun⟩,
      Expression.levels_le_iff.mpr nofun⟩
  call {_ args _ _ _} inner built := by
    refine wellFormed_of_build built fun e mem => ?_
    obtain ⟨arg, inside, wellFormed, levels⟩ := inner e mem
    have shallow : arg.nesting ≤ Node.nestingAll args :=
      Node.nestingAll_le_iff.mp (Nat.le_refl _) arg inside
    exact ⟨wellFormed, by omega⟩

theorem wellFormed_of_compile {query : String} {e : Expression} (h : compile query = .ok e) :
    e.WellFormed ∧ e.levels ≤ maxNesting + 1 := by
  obtain ⟨node, parsed, wellFormed, levels⟩ := bindable_wellFormed.compile h
  obtain ⟨-, -, -, small⟩ := derives_of_parse parsed
  exact ⟨wellFormed, by omega⟩

/-- Constants of a compiled query are literals or defaults, so none is a negative integer. -/
theorem constants_of_compile {query : String} {e : Expression} (h : compile query = .ok e)
    {p : Value → Prop} (null : p .null) (boolean : ∀ b, p (.boolean b))
    (string : ∀ s, p (.string s)) (integer : ∀ n, 0 ≤ n → p (.integer n)) : e.Constants p := by
  intro value within
  have literal : IsLiteral value := (wellFormed_of_compile h).1 _ within
  cases value with
  | null => exact null
  | boolean b => exact boolean b
  | integer n => exact integer n literal
  | string s => exact string s
  | float | array | object => exact literal.elim

end JsonQuery.Query
