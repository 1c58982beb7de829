import JsonQuery.Proofs.Json.Decoding
import JsonQuery.Proofs.Query.Expression.Preservation
import Mathlib

/-!
# Where numbers come from

A query neither changes floats nor makes new ones, and it counts from zero upwards. So every float
in a result is one of the input, and no integer in it is negative. This holds of everything that
any part of the query is evaluated on (`Handed`), and so of all that happens on the way.
-/

namespace JsonQuery.Query

open Value (Inside Everywhere everywhere_iff)

/-- During the evaluation of `e` on `input` the part comes to be evaluated on the value, if no error
and no operand that decides already keeps it from that. -/
inductive Handed [Platform] (e : Expression) (input : Value) : Expression → Value → Prop where
  | self : Handed e input e input
  | operand {whole part : Expression} {v : Value} (h : Handed e input whole v)
      (mem : part ∈ whole.operands) : Handed e input part v
  | leaf {whole part : Expression} {v child : Value} (h : Handed e input whole v)
      (mem : part ∈ whole.leaves) (inside : child ∈ v.children) : Handed e input part child
  | stage {before after : List Expression} {part : Expression} {v between : Value}
      (h : Handed e input (.pipe (before ++ part :: after)) v)
      (ok : Expression.evaluatePipe before v = .ok between) : Handed e input part between

/-- All floats in `w` are floats in `v`, and no integer in `w` is negative. -/
def DrawnFrom (v w : Value) : Prop :=
  (∀ x, Inside (.float x) w → Inside (.float x) v) ∧ ∀ n, Inside (.integer n) w → 0 ≤ n

/-- `DrawnFrom`, for one value inside. -/
def Drawn (v : Value) : Value → Prop
  | .float x => Inside (.float x) v
  | .integer n => 0 ≤ n
  | _ => True

theorem everywhere_drawn {v w : Value} : Everywhere (Drawn v) w ↔ DrawnFrom v w := by
  constructor
  · intro h
    exact ⟨fun x inside => h _ inside, fun n inside => h _ inside⟩
  · rintro ⟨floats, integers⟩ u inside
    cases u with
    | float x => exact floats x inside
    | integer n => exact integers n inside
    | _ => trivial

theorem kept_drawn (v : Value) : Kept (Drawn v) where
  null := trivial
  boolean _ := trivial
  string _ := trivial
  array _ := trivial
  zero := show (0 : Int64) ≤ 0 by decide
  above le h := Int64.le_trans h le
  ascending _ := trivial
  sameKeys _ _ := trivial

namespace Handed

variable [Platform] {p : Value → Prop} {e part : Expression} {input v : Value}

/-- Parts of the query are parts with constants of the query. -/
theorem constants (handed : Handed e input part v) (h : e.Constants p) : part.Constants p := by
  induction handed with
  | self => exact h
  | operand _ mem ih => exact ih.part (Expression.mem_parts.mpr (Or.inl mem))
  | leaf _ mem _ ih => exact ih.part (Expression.mem_parts.mpr (Or.inr (Or.inl mem)))
  | stage _ _ ih => exact ih.part (by simp)

/-- What the operators keep holds of all that the parts are evaluated on. -/
theorem everywhere (kept : Kept p) (constants : e.Constants (Everywhere p))
    (h : Everywhere p input) (handed : Handed e input part v) : Everywhere p v := by
  induction handed with
  | self => exact h
  | operand _ _ ih => exact ih
  | leaf _ _ inside ih => exact ih.child inside
  | @stage before after inner _ _ whole ok ih =>
    refine Expression.keeps_evaluatePipe (fun e mem => ?_) ih ok
    exact Expression.keeps_evaluate kept e ((whole.constants constants).part (by simp [mem]))

end Handed

/-- Results and all that parts of the query are evaluated on have their numbers from the input, if
no integer in it is negative. Decoded input has no integers. -/
theorem number_provenance [Platform] {query : String} {e : Expression}
    (compiled : compile query = .ok e) :
    (∀ v, (∀ n, Inside (.integer n) v → 0 ≤ n) →
      (∀ w, e.evaluate v = .ok w → DrawnFrom v w) ∧
        ∀ part u, Handed e v part u → DrawnFrom v u) ∧
    ∀ bytes v n, Json.decode bytes = .ok v → ¬Inside (.integer n) v := by
  refine ⟨fun v natural => ?_, fun bytes v n decoded => Json.no_integer_of_decode decoded n⟩
  have whole : Everywhere (Drawn v) v := everywhere_drawn.mpr ⟨fun _ inside => inside, natural⟩
  have leaf {u : Value} (none : u.children = []) (drawn : Drawn v u) : Everywhere (Drawn v) u :=
    (Value.everywhere_leaf none).mpr drawn
  have constants : e.Constants (Everywhere (Drawn v)) :=
    constants_of_compile compiled (leaf rfl trivial) (fun _ => leaf rfl trivial)
      (fun _ => leaf rfl trivial) (fun _ positive => leaf rfl positive)
  constructor
  · intro w ok
    exact everywhere_drawn.mp (Expression.keeps_evaluate (kept_drawn v) e constants whole ok)
  · intro part u handed
    exact everywhere_drawn.mp (handed.everywhere (kept_drawn v) constants whole)

theorem number_provenance_object :
    ∃ e w, compile "(object \"n\" (\"x\") \"k\" (range 2))" = .ok e ∧
      e.evaluate (.object [("x", .float 1.5)]) = .ok w ∧
      w.kind = .object ∧ DrawnFrom (.object [("x", .float 1.5)]) w := by
  have compiled : compile "(object \"n\" (\"x\") \"k\" (range 2))" = .ok (.object
      [(.constant (.string "n"), .element (.constant (.string "x")) .identity),
        (.constant (.string "k"), .range (.constant (.integer 0)) (.constant (.integer 2)))]) := by
    cbv
  have natural : ∀ n, Inside (.integer n) (.object [("x", .float 1.5)]) → 0 ≤ n := by
    intro n inside
    cases inside with
    | child mem inside =>
      obtain rfl := List.mem_singleton.mp mem
      cases inside with
      | child mem => cases mem
  refine ⟨_, _, compiled, rfl, rfl, ?_⟩
  exact ((number_provenance compiled).1 _ natural).1 _ rfl

end JsonQuery.Query
