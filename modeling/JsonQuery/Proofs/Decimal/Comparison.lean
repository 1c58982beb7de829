import JsonQuery.Proofs.Decimal.Doubles

/-!
# The order of doubles

Doubles that are numbers have a place in a linear order (`rank?`): by sign, then by exponent, then
by mantissa, with one place for the two zeros. A double is less than another one if its place is in
front (`lt_float_iff`) and equals it if their places are the same (`beq_float_iff`). A NaN has no
place, so it is neither less than a double nor equal to one.
-/

namespace JsonQuery

open Float.Model (UnpackedFloat)
open Float.Model.UnpackedFloat

/-- The place of a double among the others. Of two negative ones the longer one is in front. -/
def rank? : UnpackedFloat → Option (ℤ ×ₗ ℤ ×ₗ ℤ)
  | .notANumber => none
  | .infinity .negative => some (toLex (-2, toLex (0, 0)))
  | .finite .negative mantissa exponent _ => some (toLex (-1, toLex (-exponent, -mantissa)))
  | .zero _ => some (toLex (0, toLex (0, 0)))
  | .finite .positive mantissa exponent _ => some (toLex (1, toLex (exponent, mantissa)))
  | .infinity .positive => some (toLex (2, toLex (0, 0)))

/-! ### Comparing by places -/

theorem compare_eq_lt_iff {u w : UnpackedFloat} :
    u.compare w = some .lt ↔ ∃ a b, rank? u = some a ∧ rank? w = some b ∧ a < b := by
  rcases u with s | _ | s | ⟨s, m, e⟩ <;> rcases w with t | _ | t | ⟨t, n, f⟩ <;>
    (try cases s) <;> (try cases t) <;>
    simp [UnpackedFloat.compare, rank?, Prod.Lex.toLex_lt_toLex, Ordering.then_eq_lt,
      Ordering.then_eq_gt, Int.compare_eq_lt, Int.compare_eq_gt, Nat.compare_eq_lt,
      Nat.compare_eq_gt]
  -- the two infinities
  rfl

theorem compare_eq_eq_iff {u w : UnpackedFloat} :
    u.compare w = some .eq ↔ ∃ a, rank? w = some a ∧ rank? u = some a := by
  rcases u with s | _ | s | ⟨s, m, e⟩ <;> rcases w with t | _ | t | ⟨t, n, f⟩ <;>
    (try cases s) <;> (try cases t) <;>
    simp [UnpackedFloat.compare, rank?, Ordering.then_eq_eq]
  -- two infinities of one sign
  · rfl
  · rfl

/-! ### Doubles -/

section Doubles

variable {x y z : Float}

def place? (x : Float) : Option (ℤ ×ₗ ℤ ×ₗ ℤ) := rank? x.toModel.unpack

theorem lt_float_iff : x < y ↔ ∃ a b, place? x = some a ∧ place? y = some b ∧ a < b := by
  rw [place?, place?, ← compare_eq_lt_iff]
  show decide (x.toModel < y.toModel) = true ↔ _
  rw [decide_eq_true_iff]
  exact beq_iff_eq

theorem beq_float_iff : (x == y) = true ↔ ∃ a, place? y = some a ∧ place? x = some a := by
  rw [place?, place?, ← compare_eq_eq_iff]
  show (x.toModel.unpack.compare y.toModel.unpack == some .eq) = true ↔ _
  exact beq_iff_eq

theorem lt_float_irrefl (x : Float) : ¬x < x := by
  intro less
  obtain ⟨a, b, here, there, front⟩ := lt_float_iff.mp less
  cases here.symm.trans there
  exact lt_irrefl a front

theorem lt_float_trans (xy : x < y) (yz : y < z) : x < z := by
  obtain ⟨a, b, hx, hy, ab⟩ := lt_float_iff.mp xy
  obtain ⟨b', c, hy', hz, bc⟩ := lt_float_iff.mp yz
  cases hy.symm.trans hy'
  exact lt_float_iff.mpr ⟨a, c, hx, hz, ab.trans bc⟩

theorem beq_float_symm (same : (x == y) = true) : (y == x) = true := by
  obtain ⟨a, hy, hx⟩ := beq_float_iff.mp same
  exact beq_float_iff.mpr ⟨a, hx, hy⟩

theorem not_lt_float_of_beq (same : (x == y) = true) : ¬x < y := by
  intro less
  obtain ⟨a, hy, hx⟩ := beq_float_iff.mp same
  obtain ⟨b, c, hx', hy', front⟩ := lt_float_iff.mp less
  cases hx.symm.trans hx'
  cases hy.symm.trans hy'
  exact lt_irrefl a front

theorem beq_float_trans (xy : (x == y) = true) (yz : (y == z) = true) : (x == z) = true := by
  obtain ⟨a, hy, hx⟩ := beq_float_iff.mp xy
  obtain ⟨b, hz, hy'⟩ := beq_float_iff.mp yz
  cases hy.symm.trans hy'
  exact beq_float_iff.mpr ⟨a, hz, hx⟩

end Doubles

end JsonQuery
