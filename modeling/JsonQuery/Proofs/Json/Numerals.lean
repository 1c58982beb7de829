import JsonQuery.Json.Number
import JsonQuery.Json.Printer
import JsonQuery.Proofs.Decimal.Doubles

/-!
# Number texts

`Numeral.Spells` says that a text, from its first character to its last, is a number of JSON with a
given value. The text of an integer spells the nearest float (`spells_integerText`). All number
texts consist of digits, points and signs.
-/

namespace JsonQuery.Json

namespace Numeral

def pushAll? : Numeral → List Char → Option Numeral
  | n, [] => some n
  | n, c :: cs =>
    (n.push? c).bind fun next => if next.overflows then none else next.pushAll? cs

theorem pushAll?_cons_eq_some_iff {n last : Numeral} {c : Char} {cs : List Char} :
    n.pushAll? (c :: cs) = some last ↔
      ∃ next, n.push? c = some next ∧ next.overflows = false ∧ next.pushAll? cs = some last := by
  rw [pushAll?, Option.bind_eq_some_iff]
  simp

theorem overflows_of_phase {n : Numeral} (phase : n.phase ≠ .exponent) : n.overflows = false := by
  simp [overflows, phase]

/-- The whole text is one number, whose value is `x`. -/
def Spells (text : List Char) (x : Float) : Prop :=
  ∃ c cs first last, text = c :: cs ∧ start? c = some first ∧ first.pushAll? cs = some last ∧
    last.isComplete = true ∧ last.value? = some x

/-! ### Digits -/

theorem digit?_of_isDigit {c : Char} (h : c.isDigit = true) :
    digit? c = some (c.toNat - '0'.toNat) := if_pos h

theorem le_ofDigitChars (cs : List Char) (init : Nat) : init ≤ Nat.ofDigitChars 10 cs init := by
  induction cs generalizing init with
  | nil => exact Nat.le_refl init
  | cons c cs ih =>
    rw [Nat.ofDigitChars_cons]
    have := ih (10 * init + (c.toNat - '0'.toNat))
    omega

/-- Digits that fit are collected in the significand. -/
theorem pushAll?_digits {n : Numeral} (whole : n.phase = .whole) {cs : List Char}
    (digits : ∀ c ∈ cs, c.isDigit = true)
    (small : Nat.ofDigitChars 10 cs n.significand < UInt64.size) :
    n.pushAll? cs = some { n with significand := Nat.ofDigitChars 10 cs n.significand } := by
  induction cs generalizing n with
  | nil => rfl
  | cons c cs ih =>
    obtain ⟨digit, others⟩ := List.forall_mem_cons.mp digits
    rw [Nat.ofDigitChars_cons] at small ⊢
    have fit : fits (10 * n.significand + (c.toNat - '0'.toNat)) = true :=
      decide_eq_true (Nat.lt_of_le_of_lt (le_ofDigitChars cs _) small)
    have step : n.push? c =
        some { n with significand := 10 * n.significand + (c.toNat - '0'.toNat) } := by
      unfold push?
      rw [whole, digit?_of_isDigit digit]
      simp only [pushWhole, fit, if_true]
      rw [whole]
    exact pushAll?_cons_eq_some_iff.mpr
      ⟨_, step, overflows_of_phase (by simp [whole]), ih whole others small⟩

theorem digitChar_ne_zero {d : Nat} (pos : d ≠ 0) (small : d < 10) : d.digitChar ≠ '0' := by
  have cases : d = 1 ∨ d = 2 ∨ d = 3 ∨ d = 4 ∨ d = 5 ∨ d = 6 ∨ d = 7 ∨ d = 8 ∨ d = 9 := by omega
  rcases cases with rfl | rfl | rfl | rfl | rfl | rfl | rfl | rfl | rfl <;> decide

/-- Only zero starts with the digit zero. -/
theorem toDigits_eq_cons {n : Nat} (pos : n ≠ 0) :
    ∃ c cs, Nat.toDigits 10 n = c :: cs ∧ c ≠ '0' := by
  induction n using Nat.strongRecOn with
  | ind n ih =>
    by_cases small : n < 10
    · exact ⟨n.digitChar, [], Nat.toDigits_of_lt_base small, digitChar_ne_zero pos small⟩
    · obtain ⟨c, cs, same, ne⟩ := ih (n / 10) (by omega) (by omega)
      exact ⟨c, _, by rw [Nat.toDigits_of_base_le (by decide) (by omega), same]; rfl, ne⟩

theorem isDigit_toDigits {n : Nat} {c : Char} (mem : c ∈ Nat.toDigits 10 n) : c.isDigit = true :=
  Nat.isDigit_of_mem_toDigits (by decide) (by decide) mem

/-- The number that follows a sign, or none, and has `n` as its digits. -/
theorem pushAll?_toDigits {first : Numeral} (whole : first.phase = .whole) {n : Nat} {c : Char}
    {cs : List Char} (same : Nat.toDigits 10 n = c :: cs)
    (lead : first.significand = c.toNat - '0'.toNat) (small : n < UInt64.size) :
    first.pushAll? cs = some { first with significand := n } := by
  have value : Nat.ofDigitChars 10 cs first.significand = n := by
    have all := @Nat.ofDigitChars_ten_toDigits n
    rw [same, Nat.ofDigitChars_cons] at all
    rw [lead]
    simpa using all
  rw [pushAll?_digits whole (fun c mem => isDigit_toDigits (same ▸ List.mem_cons_of_mem _ mem))
    (value ▸ small), value]

theorem value?_whole {n : Numeral} (scale : n.scale = 0) (exponent : n.exponent = 0) :
    n.value? = some (if n.negative then -Float.ofNat n.significand
      else Float.ofNat n.significand) := by
  unfold value?
  rw [scale, exponent]
  cases n.shrinks <;> simp [scale?]

theorem spells_digits {n : Nat} (small : n < UInt64.size) :
    Spells (digits n) (Float.ofNat n) := by
  by_cases zero : n = 0
  · subst zero
    exact ⟨'0', [], _, _, rfl, rfl, rfl, rfl, value?_whole rfl rfl⟩
  · obtain ⟨c, cs, same, ne⟩ := toDigits_eq_cons zero
    have digit : c.isDigit = true := isDigit_toDigits (same ▸ List.mem_cons_self)
    have minus : c ≠ '-' := by
      rintro rfl
      exact absurd digit (by decide)
    refine ⟨c, cs, ⟨false, .whole, c.toNat - '0'.toNat, 0, false, 0⟩, _, same, ?_,
      pushAll?_toDigits rfl same rfl small, rfl, value?_whole rfl rfl⟩
    rw [start?, if_neg minus, if_neg ne, digit?_of_isDigit digit]
    rfl

theorem spells_minus_digits {n : Nat} (pos : n ≠ 0) (small : n < UInt64.size) :
    Spells ('-' :: digits n) (-Float.ofNat n) := by
  obtain ⟨c, cs, same, ne⟩ := toDigits_eq_cons pos
  have digit : c.isDigit = true := isDigit_toDigits (same ▸ List.mem_cons_self)
  have lead : c.toNat - '0'.toNat ≠ 0 := by
    intro zero
    refine ne (Char.ext (UInt32.toNat_inj.mp ?_))
    have := (Char.isDigit_iff_toNat.mp digit).1
    have : c.toNat = '0'.toNat := by omega
    exact this
  refine ⟨'-', c :: cs, ⟨true, .minus, 0, 0, false, 0⟩, ⟨true, .whole, n, 0, false, 0⟩,
    congrArg _ same, rfl, ?_, rfl, value?_whole rfl rfl⟩
  refine pushAll?_cons_eq_some_iff.mpr ⟨⟨true, .whole, c.toNat - '0'.toNat, 0, false, 0⟩, ?_,
    overflows_of_phase nofun, pushAll?_toDigits rfl same rfl small⟩
  rw [push?, digit?_of_isDigit digit]
  dsimp only
  rw [if_neg lead]

/-- The text of an integer that a float cannot miss by more than rounding. -/
theorem spells_integerText {n : Int} (small : n.natAbs < UInt64.size) :
    Spells (integerText n) (Float.ofInt n) := by
  cases n with
  | ofNat n => exact spells_digits small
  | negSucc n =>
    have minus : integerText (Int.negSucc n) = '-' :: digits (n + 1) := by
      rw [integerText, decide_eq_true (Int.negSucc_lt_zero n)]
      rfl
    rw [minus]
    exact spells_minus_digits (Nat.succ_ne_zero n) small

end Numeral

/-! ### What number texts consist of -/

/-- A character of a number without an exponent. -/
def isNumeric (c : Char) : Bool := c.isDigit || c = '-' || c = '.'

theorem isNumeric_of_isDigit {c : Char} (h : c.isDigit = true) : isNumeric c = true := by
  simp [isNumeric, h]

theorem isNumeric_digits {n : Nat} {c : Char} (mem : c ∈ digits n) : isNumeric c = true :=
  isNumeric_of_isDigit (Numeral.isDigit_toDigits mem)

theorem isNumeric_zeros {count : Nat} {c : Char} (mem : c ∈ zeros count) : isNumeric c = true := by
  rw [(List.mem_replicate.mp mem).2]
  rfl

theorem isNumeric_positional (d : Decimal) {c : Char} (mem : c ∈ d.positional) :
    isNumeric c = true := by
  unfold Decimal.positional at mem
  dsimp only at mem
  split at mem
  · rcases List.mem_append.mp mem with mem | mem
    · exact isNumeric_digits mem
    · exact isNumeric_zeros mem
  split at mem
  · rcases List.mem_append.mp mem with mem | mem
    · exact isNumeric_digits (List.mem_of_mem_take mem)
    rcases List.mem_cons.mp mem with rfl | mem
    · rfl
    · exact isNumeric_digits (List.mem_of_mem_drop mem)
  · rcases List.mem_cons.mp mem with rfl | mem
    · rfl
    rcases List.mem_cons.mp mem with rfl | mem
    · rfl
    rcases List.mem_append.mp mem with mem | mem
    · exact isNumeric_zeros mem
    · exact isNumeric_digits mem

theorem isNumeric_signed {negative : Bool} {text : List Char}
    (h : ∀ c ∈ text, isNumeric c = true) : ∀ c ∈ signed negative text, isNumeric c = true := by
  cases negative with
  | false => exact h
  | true => exact List.forall_mem_cons.mpr ⟨rfl, h⟩

theorem isNumeric_integerText (n : Int) : ∀ c ∈ integerText n, isNumeric c = true :=
  isNumeric_signed fun _ mem => isNumeric_digits mem

theorem numberText_finite {x : Float} (h : x.isFinite = true) :
    ∀ c ∈ numberText x, isNumeric c = true := by
  obtain ⟨negative, size, fields⟩ := (isFinite_iff x).mp h
  unfold numberText positionalText
  rw [fields]
  dsimp only
  rw [String.toList_ofList]
  exact isNumeric_signed fun _ => isNumeric_positional size.shortest

/-- JSON has no number for a float that is not finite. -/
theorem numberText_infinite {x : Float} (h : x.isFinite = false) :
    numberText x = "null".toList := by
  have other : ∀ negative size, Binary64.ofFloat x ≠ .finite negative size := by
    intro negative size fields
    rw [(isFinite_iff x).mpr ⟨negative, size, fields⟩] at h
    cases h
  unfold numberText
  cases fields : Binary64.ofFloat x with
  | finite negative size => exact absurd fields (other negative size)
  | _ => rfl

end JsonQuery.Json
