import JsonQuery.Proofs.Decimal.Leading

/-!
# The digits that read back

`Dyadic.shortest` finds a decimal in the rounding interval of a double (`rounds_shortest`): on the
grid of seventeen digits one of the two neighbours is always in it
(`isSome_nearestOn?_seventeen`). The decimal has no trailing zero, and its leading digit is that of
the double unless rounding reaches the next power of ten. It does not at a power of ten that no
smaller double rounds to (`log_shortest_lt_iff`), which is so for 1000000 and 0.0001, so doubles are
as far from one as their shortest decimals (`remote_shortest_iff`).
-/

namespace JsonQuery

/-- The sizes of doubles: at most 53 digits, and exactly as many unless the exponent is the least
one. -/
structure Dyadic.IsDouble (d : Dyadic) : Prop where
  lt : d.significand < 2 ^ 53
  le : d.exponent ≠ -1074 → 2 ^ 52 ≤ d.significand

theorem Binary64.isDouble_of_ofBits {bits : Nat} {negative : Bool} {size : Dyadic}
    (h : ofBits bits = .finite negative size) : size.IsDouble := by
  have small : bits % 2 ^ 52 < 2 ^ 52 := Nat.mod_lt _ (by decide)
  unfold ofBits at h
  simp only [Nat.pow_eq] at h
  split at h
  · split at h <;> cases h
  split at h
  · cases h
    exact ⟨by dsimp only; omega, fun normal => absurd rfl normal⟩
  · cases h
    exact ⟨by dsimp only; omega, fun _ => by dsimp only; omega⟩

namespace Dyadic

variable {d : Dyadic} {grid : ℤ}

/-! ### The rounding interval -/

/-- The numbers that are nearer to the double than to its neighbours. Halfway points belong to the
double with the even significand. -/
def Rounds (d : Dyadic) (q : ℚ) : Prop :=
  let low := d.value - d.lowerReach * 2 ^ (d.exponent - 2)
  let high := d.value + 2 ^ (d.exponent - 1)
  if d.significand % 2 = 0 then low ≤ q ∧ q ≤ high else low < q ∧ q < high

theorem Rounds.le {q : ℚ} (h : d.Rounds q) : q ≤ d.value + 2 ^ (d.exponent - 1) := by
  unfold Rounds at h
  dsimp only at h
  split at h
  · exact h.2
  · exact h.2.le

theorem rounds_of_lt {q : ℚ} (low : d.value - d.lowerReach * 2 ^ (d.exponent - 2) < q)
    (high : q < d.value + 2 ^ (d.exponent - 1)) : d.Rounds q := by
  unfold Rounds
  dsimp only
  split
  · exact ⟨low.le, high.le⟩
  · exact ⟨low, high⟩

theorem lowerReach_le (d : Dyadic) : d.lowerReach ≤ 2 := by
  unfold lowerReach
  split <;> decide

theorem scaled_le_iff {scale x y : ℚ} (pos : 0 < scale) {a b : Nat} (left : (a : ℚ) = x * scale)
    (right : (b : ℚ) = y * scale) : a ≤ b ↔ x ≤ y := by
  rw [← mul_le_mul_iff_left₀ pos, ← left, ← right, Nat.cast_le]

/-- The test for the rounding interval multiplies all its numbers by a common denominator. -/
theorem covers_iff (h : d.significand ≠ 0) {coefficient : Nat} :
    d.covers grid coefficient = true ↔ d.Rounds (coefficient * 10 ^ grid) := by
  have reach : d.lowerReach ≤ 4 * d.significand := by
    have := d.lowerReach_le
    omega
  have two (z : ℤ) : (2 : ℚ) ^ z = 2 ^ z.toNat / 2 ^ (-z).toNat := zpow_eq_div (by norm_num) z
  have ten : (10 : ℚ) ^ grid = 10 ^ grid.toNat / 10 ^ (-grid).toNat :=
    zpow_eq_div (by norm_num) grid
  set scale : ℚ := 4 * 2 ^ (-d.exponent).toNat * 10 ^ (-grid).toNat with scale_eq
  have pos : 0 < scale := by positivity
  have point : ((coefficient * (4 * 10 ^ grid.toNat * d.denominator) : Nat) : ℚ) =
      coefficient * 10 ^ grid * scale := by
    rw [ten, denominator, scale_eq]
    push_cast [Nat.pow_eq]
    field_simp
  have low : (((4 * d.significand - d.lowerReach) *
      (2 ^ d.exponent.toNat * 10 ^ (-grid).toNat) : Nat) : ℚ) = (d.value - d.lowerReach * 2 ^ (d.exponent - 2)) * scale := by
    rw [value, zpow_sub₀ (by norm_num), two d.exponent, scale_eq]
    push_cast [Nat.cast_sub reach]
    field_simp
  have high : (((4 * d.significand + 2) * (2 ^ d.exponent.toNat * 10 ^ (-grid).toNat) : Nat) : ℚ) =
      (d.value + 2 ^ (d.exponent - 1)) * scale := by
    rw [value, zpow_sub₀ (by norm_num), two d.exponent, scale_eq]
    push_cast
    field_simp
    ring
  unfold covers Rounds
  simp only [Nat.pow_eq]
  split
  · rw [Bool.and_eq_true, decide_eq_true_eq, decide_eq_true_eq]
    exact and_congr (scaled_le_iff pos low point) (scaled_le_iff pos point high)
  · rw [Bool.and_eq_true, decide_eq_true_eq, decide_eq_true_eq]
    exact and_congr (lt_iff_lt_of_le_iff_le (scaled_le_iff pos point low))
      (lt_iff_lt_of_le_iff_le (scaled_le_iff pos high point))

/-! ### Neighbours on a grid -/

theorem floorOn_eq_floor (d : Dyadic) (grid : ℤ) : d.floorOn grid = ⌊d.value / 10 ^ grid⌋₊ := by
  rw [floorOn, ← Nat.floor_div_eq_div (K := ℚ), d.value_eq_div, zpow_eq_div (by norm_num) grid]
  push_cast [Nat.pow_eq]
  congr 1
  field_simp

theorem floorOn_le (d : Dyadic) (grid : ℤ) : d.floorOn grid * 10 ^ grid ≤ d.value := by
  have ten : (0 : ℚ) < 10 ^ grid := zpow_pos (by norm_num) grid
  have nonneg : 0 ≤ d.value := by
    rw [value]
    positivity
  rw [floorOn_eq_floor, ← le_div_iff₀ ten]
  exact Nat.floor_le (by positivity)

theorem lt_floorOn_add_one (d : Dyadic) (grid : ℤ) :
    d.value < (d.floorOn grid + 1) * 10 ^ grid := by
  have ten : (0 : ℚ) < 10 ^ grid := zpow_pos (by norm_num) grid
  rw [floorOn_eq_floor, ← div_lt_iff₀ ten]
  exact Nat.lt_floor_add_one _

/-- What is taken from a grid is a neighbour of the double that rounds to it. -/
theorem of_nearestOn? {decimal : Decimal} (h : d.nearestOn? grid = some decimal) :
    decimal.exponent = grid ∧
      (decimal.coefficient = d.floorOn grid ∨ decimal.coefficient = d.floorOn grid + 1) ∧
        d.covers grid decimal.coefficient = true := by
  unfold nearestOn? at h
  dsimp only at h
  split at h
  · rename_i below above
    split at h
    · cases h
      exact ⟨rfl, Or.inl rfl, below⟩
    · cases h
      exact ⟨rfl, Or.inr rfl, above⟩
  · rename_i below above
    cases h
    exact ⟨rfl, Or.inl rfl, below⟩
  · rename_i below above
    cases h
    exact ⟨rfl, Or.inr rfl, above⟩
  · cases h

theorem covers_of_nearestOn?_eq_none (h : d.nearestOn? grid = none) :
    d.covers grid (d.floorOn grid) = false ∧ d.covers grid (d.floorOn grid + 1) = false := by
  unfold nearestOn? at h
  dsimp only at h
  split at h
  · split at h <;> cases h
  · cases h
  · cases h
  · rename_i below above
    exact ⟨below, above⟩

/-- One place of the grid of seventeen digits is shorter than the rounding interval of a double. -/
theorem seventeenth_lt (double : d.IsDouble) {lead : ℤ} (low : 10 ^ lead ≤ d.value) :
    (10 : ℚ) ^ (lead - 16) < d.lowerReach * 2 ^ (d.exponent - 2) + 2 ^ (d.exponent - 1) := by
  have two : (0 : ℚ) < 2 ^ d.exponent := zpow_pos (by norm_num) _
  rw [value] at low
  rw [zpow_sub₀ (by norm_num), zpow_sub₀ (by norm_num), zpow_sub₀ (by norm_num)]
  unfold lowerReach
  -- 10 ^ 16 is more than 2 ^ 53, and more than 2 ^ 52 times 4 / 3 where the interval is shorter
  split
  · rename_i power
    rw [power.1] at low
    norm_num at low ⊢
    linarith
  · have small : (d.significand : ℚ) < 2 ^ 53 := by exact_mod_cast double.lt
    have : d.significand * (2 : ℚ) ^ d.exponent < 2 ^ 53 * 2 ^ d.exponent := by gcongr
    norm_num at low this ⊢
    linarith

/-- Of the two neighbours with seventeen digits one rounds to the double. -/
theorem isSome_nearestOn?_seventeen (double : d.IsDouble) (nonzero : d.significand ≠ 0) {lead : ℤ}
    (low : 10 ^ lead ≤ d.value) : (d.nearestOn? (lead - 16)).isSome = true := by
  by_contra absent
  rw [Bool.not_eq_true, Option.isSome_eq_false_iff, Option.isNone_iff_eq_none] at absent
  obtain ⟨below, above⟩ := covers_of_nearestOn?_eq_none absent
  have wide := seventeenth_lt double low
  have behind := d.floorOn_le (lead - 16)
  have ahead := d.lt_floorOn_add_one (lead - 16)
  have half : (0 : ℚ) < 2 ^ (d.exponent - 1) := zpow_pos (by norm_num) _
  have reach : (0 : ℚ) ≤ d.lowerReach * 2 ^ (d.exponent - 2) := by positivity
  -- a gap around the whole interval would be longer than a place
  by_cases near :
      d.value - d.lowerReach * 2 ^ (d.exponent - 2) < d.floorOn (lead - 16) * 10 ^ (lead - 16)
  · have rounds := (covers_iff nonzero).mpr (rounds_of_lt near (by linarith))
    exact absurd (rounds.symm.trans below) (by decide)
  · have rounds : d.Rounds ((d.floorOn (lead - 16) + 1 : Nat) * 10 ^ (lead - 16)) := by
      apply rounds_of_lt <;> push_cast <;> linarith
    exact absurd (((covers_iff nonzero).mpr rounds).symm.trans above) (by decide)

section Lead

variable {lead : ℤ}

/-- Both neighbours on a grid that counts the leading digit lie between two powers of ten. -/
theorem pow_le_floorOn (low : 10 ^ lead ≤ d.value) (extra : Nat) :
    10 ^ extra ≤ d.floorOn (lead - extra) := by
  have ten : (0 : ℚ) < 10 ^ (lead - extra) := zpow_pos (by norm_num) _
  rw [floorOn_eq_floor]
  apply Nat.le_floor
  rw [le_div_iff₀ ten, Nat.cast_pow, Nat.cast_ofNat, ← zpow_natCast, ← zpow_add₀ (by norm_num),
    add_sub_cancel]
  exact low

theorem floorOn_lt_pow (pos : 0 < d.value) (high : d.value < 10 ^ (lead + 1)) (extra : Nat) :
    d.floorOn (lead - extra) < 10 ^ (extra + 1) := by
  have ten : (0 : ℚ) < 10 ^ (lead - extra) := zpow_pos (by norm_num) _
  rw [floorOn_eq_floor, Nat.floor_lt (by positivity), div_lt_iff₀ ten, Nat.cast_pow, Nat.cast_ofNat,
    ← zpow_natCast, ← zpow_add₀ (by norm_num)]
  push_cast
  rw [show (extra : ℤ) + 1 + (lead - extra) = lead + 1 by ring]
  exact high

theorem value_le_of_coefficient {decimal : Decimal} {extra : Nat}
    (place : decimal.exponent = lead - extra) (low : 10 ^ extra ≤ decimal.coefficient)
    (high : decimal.coefficient ≤ 10 ^ (extra + 1)) :
    10 ^ lead ≤ decimal.value ∧ decimal.value ≤ 10 ^ (lead + 1) := by
  have least : (10 : ℚ) ^ extra ≤ decimal.coefficient := by exact_mod_cast low
  have most : (decimal.coefficient : ℚ) ≤ 10 ^ (extra + 1) := by exact_mod_cast high
  have ten : (0 : ℚ) ≤ 10 ^ (lead - extra) := zpow_nonneg (by norm_num) _
  rw [Decimal.value, place]
  constructor
  · calc (10 : ℚ) ^ lead = 10 ^ extra * 10 ^ (lead - extra) := by
          rw [← zpow_natCast, ← zpow_add₀ (by norm_num), add_sub_cancel]
      _ ≤ decimal.coefficient * 10 ^ (lead - extra) := by gcongr
  · calc (decimal.coefficient : ℚ) * 10 ^ (lead - extra)
        ≤ 10 ^ (extra + 1) * 10 ^ (lead - extra) := by gcongr
      _ = 10 ^ (lead + 1) := by
        rw [← zpow_natCast, ← zpow_add₀ (by norm_num)]
        congr 1
        push_cast
        ring

end Lead

/-! ### The shortest decimal -/

/-- The search ends on a grid of at most seventeen digits. -/
theorem shortest_eq_trim (double : d.IsDouble) (nonzero : d.significand ≠ 0) :
    ∃ extra : Nat, ∃ decimal, d.nearestOn? (Int.log 10 d.value - extra) = some decimal ∧
      d.shortest = decimal.trim := by
  have low : 10 ^ Int.log 10 d.value ≤ d.value :=
    (zpow_le_iff_le_log (value_pos nonzero)).mpr le_rfl
  rw [shortest, if_neg nonzero, leadingExponent_eq_log nonzero]
  dsimp only
  split
  · rename_i decimal found
    obtain ⟨extra, -, taken⟩ := List.exists_of_findSome?_eq_some found
    exact ⟨extra, decimal, taken, rfl⟩
  · rename_i missing
    have last := List.findSome?_eq_none_iff.mp missing 16 (by decide)
    exact absurd (isSome_nearestOn?_seventeen double nonzero low)
      (Option.not_isSome_iff_eq_none.mpr last)

/-- The shortest decimal rounds to the double, has no trailing zero, and lies between the powers of
ten on both sides of the double. -/
theorem shortest_spec (double : d.IsDouble) (nonzero : d.significand ≠ 0) :
    d.Rounds d.shortest.value ∧ d.shortest.coefficient % 10 ≠ 0 ∧
      10 ^ Int.log 10 d.value ≤ d.shortest.value ∧
        d.shortest.value ≤ 10 ^ (Int.log 10 d.value + 1) := by
  obtain ⟨extra, decimal, taken, same⟩ := shortest_eq_trim double nonzero
  obtain ⟨place, neighbour, covers⟩ := of_nearestOn? taken
  have pos := value_pos nonzero
  have low := pow_le_floorOn ((zpow_le_iff_le_log pos).mpr le_rfl) extra
  have high := floorOn_lt_pow pos ((lt_zpow_iff_log_lt pos).mpr (Int.lt_succ _)) extra
  have bounds : 10 ^ extra ≤ decimal.coefficient ∧ decimal.coefficient ≤ 10 ^ (extra + 1) := by
    omega
  have nonzero' : decimal.coefficient ≠ 0 := by
    have := Nat.pow_pos (n := extra) (show 0 < 10 by decide)
    omega
  rw [same, Decimal.value_trim]
  refine ⟨?_, Decimal.trim_coefficient_mod nonzero',
    value_le_of_coefficient place bounds.1 bounds.2⟩
  rw [covers_iff nonzero, ← place] at covers
  exact covers

/-! ### Powers of ten that rounding does not reach -/

/-- The doubles up to 1000000 have places after the point, so they leave a gap of more than half a
place. -/
theorem not_rounds_million (double : d.IsDouble) (below : d.value < 10 ^ (6 : ℤ)) :
    ¬d.Rounds (10 ^ (6 : ℤ)) := by
  intro rounds
  have near := rounds.le
  rw [value] at below near
  by_cases whole : 0 ≤ d.exponent
  · have large : (2 : ℚ) ^ 52 ≤ d.significand := by exact_mod_cast double.le (by omega)
    have : (1 : ℚ) ≤ 2 ^ d.exponent := one_le_zpow₀ (by norm_num) whole
    have : (2 : ℚ) ^ 52 * 1 ≤ d.significand * 2 ^ d.exponent := by gcongr
    norm_num at below this
    linarith
  · obtain ⟨places, exponent⟩ : ∃ places : Nat, d.exponent = -places :=
      ⟨(-d.exponent).toNat, by omega⟩
    have pos : (0 : ℚ) < 2 ^ places := by positivity
    rw [zpow_sub_one₀ (by norm_num)] at near
    rw [exponent, zpow_neg, zpow_natCast, ← div_eq_mul_inv] at below near
    have fewer : d.significand + 1 ≤ 10 ^ 6 * 2 ^ places := by
      rw [div_lt_iff₀ pos] at below
      exact_mod_cast below
    have gap : (d.significand : ℚ) + 1 ≤ 10 ^ 6 * 2 ^ places := by exact_mod_cast fewer
    have reached : (10 : ℚ) ^ (6 : ℤ) * 2 ^ places ≤ d.significand + 1 / 2 := by
      calc (10 : ℚ) ^ (6 : ℤ) * 2 ^ places
          ≤ (d.significand / 2 ^ places + (2 ^ places)⁻¹ * 2⁻¹) * 2 ^ places := by gcongr
        _ = d.significand + 1 / 2 := by field_simp
    norm_num at gap reached
    linarith

/-- The doubles next to 0.0001 are 7378697629483820 and 7378697629483821 times a power of two, and
0.0001 rounds to the upper one. -/
theorem not_rounds_ten_thousandth (double : d.IsDouble) (below : d.value < 10 ^ (-4 : ℤ)) :
    ¬d.Rounds (10 ^ (-4 : ℤ)) := by
  intro rounds
  have near := rounds.le
  have two : (0 : ℚ) < 2 ^ d.exponent := zpow_pos (by norm_num) _
  rw [value] at below near
  rw [zpow_sub_one₀ (by norm_num)] at near
  -- with a smaller exponent no double comes near, and with a larger one none is below
  rcases lt_trichotomy d.exponent (-66) with small | exponent | large
  · have digits : (d.significand : ℚ) + 1 ≤ 2 ^ 53 := by exact_mod_cast double.lt
    have scale : (2 : ℚ) ^ d.exponent ≤ 2 ^ (-67 : ℤ) := by
      apply zpow_le_zpow_right₀ (by norm_num)
      omega
    have : ((d.significand : ℚ) + 1) * 2 ^ d.exponent ≤ 2 ^ 53 * 2 ^ (-67 : ℤ) := by gcongr
    norm_num at near this
    linarith
  · rw [exponent] at below near
    norm_num at below near
    have left : d.significand ≤ 7378697629483820 := by
      have : (d.significand : ℚ) < 7378697629483821 := by linarith
      exact Nat.lt_succ_iff.mp (by exact_mod_cast this)
    have right : (d.significand : ℚ) ≤ 7378697629483820 := by exact_mod_cast left
    linarith
  · have digits : (2 : ℚ) ^ 52 ≤ d.significand := by exact_mod_cast double.le (by omega)
    have scale : (2 : ℚ) ^ (-65 : ℤ) ≤ 2 ^ d.exponent := by
      apply zpow_le_zpow_right₀ (by norm_num)
      omega
    have : (2 : ℚ) ^ 52 * 2 ^ (-65 : ℤ) ≤ d.significand * 2 ^ d.exponent := by gcongr
    norm_num at below this
    linarith

theorem value_shortest_pos (double : d.IsDouble) (nonzero : d.significand ≠ 0) :
    0 < d.shortest.value :=
  (zpow_pos (by norm_num) _).trans_le (shortest_spec double nonzero).2.2.1

/-- Rounding moves no double over a power of ten that no double below rounds to. -/
theorem log_shortest_lt_iff (double : d.IsDouble) (nonzero : d.significand ≠ 0) {e : ℤ}
    (apart : d.value < 10 ^ e → ¬d.Rounds (10 ^ e)) :
    Int.log 10 d.shortest.value < e ↔ Int.log 10 d.value < e := by
  obtain ⟨rounds, -, low, high⟩ := shortest_spec double nonzero
  have pos := value_shortest_pos double nonzero
  constructor
  · intro less
    have := (zpow_le_iff_le_log pos).mp low
    omega
  · intro less
    have reach : d.shortest.value ≤ 10 ^ e := high.trans (zpow_le_zpow_right₀ (by norm_num) less)
    have away : d.shortest.value ≠ 10 ^ e := by
      intro same
      rw [same] at rounds
      exact apart ((lt_zpow_iff_log_lt (value_pos nonzero)).mpr less) rounds
    exact (lt_zpow_iff_log_lt pos).mp (lt_of_le_of_ne reach away)

/-! ### Zero -/

theorem shortest_of_zero (h : d.significand = 0) : d.shortest = ⟨0, 0⟩ := by
  rw [shortest, if_pos h]

theorem value_of_zero (h : d.significand = 0) : d.value = 0 := by
  rw [value, h, Nat.cast_zero, zero_mul]

theorem rounds_shortest (double : d.IsDouble) : d.Rounds d.shortest.value := by
  by_cases zero : d.significand = 0
  · unfold Rounds
    dsimp only
    rw [if_pos (by rw [zero]), value_of_zero zero, shortest_of_zero zero, Decimal.value,
      Nat.cast_zero, zero_mul]
    constructor
    · rw [sub_nonpos]
      positivity
    · positivity
  · exact (shortest_spec double zero).1

end Dyadic

/-! ### Numbers far from one -/

/-- The decimal exponent is below -4 or at least 6: the leading digit stands behind the fourth place
after the point or in front of the sixth place before it. -/
def Remote (q : ℚ) : Prop := q ≠ 0 ∧ (Int.log 10 q < -4 ∨ 6 ≤ Int.log 10 q)

/-- A double is as remote as its shortest decimal. -/
theorem remote_shortest_iff {d : Dyadic} (double : d.IsDouble) :
    Remote d.shortest.value ↔ Remote d.value := by
  by_cases zero : d.significand = 0
  · rw [Dyadic.shortest_of_zero zero, Dyadic.value_of_zero zero, Decimal.value, Nat.cast_zero,
      zero_mul]
  · have small := Dyadic.log_shortest_lt_iff double zero (Dyadic.not_rounds_ten_thousandth double)
    have large := Dyadic.log_shortest_lt_iff double zero (Dyadic.not_rounds_million double)
    have nonzero := (Dyadic.value_pos zero).ne'
    have nonzero' := (Dyadic.value_shortest_pos double zero).ne'
    rw [Remote, Remote, small, ← not_lt, large, not_lt]
    simp only [ne_eq, nonzero, nonzero', not_false_eq_true, true_and]

end JsonQuery
