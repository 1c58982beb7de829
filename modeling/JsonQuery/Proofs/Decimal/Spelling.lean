import JsonQuery.Proofs.Decimal.Leading
import JsonQuery.Proofs.Json.Numerals
import JsonQuery.Proofs.Template.Numerals
import JsonQuery.Proofs.Text.Classes

/-!
# Spellings read back

`decimalOf?` reads a number with or without a point and with or without an exponent. It reads the
positional and the scientific spelling of a decimal as the same number
(`magnitudeOf?_positional`, `magnitudeOf?_scientific`). A spelling with an exponent is a
`ScientificForm` if the decimal has no trailing zero (`scientific_eq_text`).
-/

namespace JsonQuery

open Json.Numeral (digitChar_ne_zero isDigit_toDigits toDigits_eq_cons)
open Template (numberIn? numberIn?_digits integerOf?)

/-! ### Readers -/

/-- Digits, or digits on both sides of a point. -/
def mantissaOf? (text : List Char) : Option ℚ :=
  let whole := text.takeWhile Char.isDigit
  match text.dropWhile Char.isDigit with
  | [] => (numberIn? 10 whole).map fun n => n
  | '.' :: part =>
    if whole = [] ∨ part = [] then none
    else (numberIn? 10 (whole ++ part)).map fun n => n / 10 ^ part.length
  | _ => none

/-- A mantissa and the power of ten that it is multiplied by. -/
def magnitudeOf? (text : List Char) : Option ℚ :=
  match text.dropWhile (· != 'e') with
  | [] => mantissaOf? text
  | _ :: power => do
    return (← mantissaOf? (text.takeWhile (· != 'e'))) * 10 ^ (← integerOf? power)

/-- The sign is kept apart from the size of the number, so that zero has one as well. -/
def decimalOf? : List Char → Option (Bool × ℚ)
  | '-' :: text => (magnitudeOf? text).map fun q => (true, q)
  | text => (magnitudeOf? text).map fun q => (false, q)

/-! ### Digits -/

section Digits

variable {ds : List Char} {n : Nat}

theorem numberIn?_append_zeros (h : numberIn? 10 ds = some n) (count : Nat) :
    numberIn? 10 (ds ++ zeros count) = some (n * 10 ^ count) := by
  unfold numberIn? at h ⊢
  split at h
  · cases h
  · rename_i full
    rw [if_neg (by simp [full])]
    induction count with
    | zero => simpa [zeros] using h
    | succ count ih =>
      rw [zeros, List.replicate_succ', ← List.append_assoc, Template.digitsValue?_snoc]
      rw [zeros] at ih
      rw [ih, pow_succ, show Template.digitIn? 10 '0' = some 0 by decide]
      exact congrArg some (by dsimp only; ring)

theorem isDigit_zeros {count : Nat} {c : Char} (mem : c ∈ zeros count) : c.isDigit = true := by
  rw [(List.mem_replicate.mp mem).2]
  rfl

/-- A last digit that is not zero shows. -/
theorem zero_not_mem_getLast?_digits (h : n % 10 ≠ 0) : '0' ∉ (digits n).getLast? := by
  have last : (n % 10).digitChar ≠ '0' := digitChar_ne_zero h (Nat.mod_lt n (by decide))
  by_cases small : n < 10
  · rw [Nat.mod_eq_of_lt small] at last
    rw [digits, Nat.toDigits_of_lt_base small]
    simpa using last
  · rw [digits, Nat.toDigits_of_base_le (by decide) (by omega)]
    simpa using last

end Digits

/-! ### Mantissas -/

section Mantissa

variable {ds whole part : List Char} {n : Nat}

theorem mantissaOf?_whole (all : ∀ c ∈ ds, c.isDigit = true) (h : numberIn? 10 ds = some n) :
    mantissaOf? ds = some (n : ℚ) := by
  rw [mantissaOf?, List.takeWhile_eq_self_iff.mpr all, List.dropWhile_eq_nil_iff.mpr all, h]
  rfl

theorem mantissaOf?_point (all : ∀ c ∈ whole, c.isDigit = true) (before : whole ≠ [])
    (after : part ≠ []) (h : numberIn? 10 (whole ++ part) = some n) :
    mantissaOf? (whole ++ '.' :: part) = some (n / 10 ^ part.length : ℚ) := by
  have ends : ∀ c ∈ ('.' :: part).head?, c.isDigit = false := by
    intro c first
    cases first
    rfl
  rw [mantissaOf?, takeWhile_ends all ends, dropWhile_ends all ends]
  show (if whole = [] ∨ part = [] then none else _) = _
  rw [if_neg (by simp [before, after]), h]
  rfl

/-- The first digit stands before the point, all others after it. -/
theorem mantissaOf?_mantissa (all : ∀ c ∈ ds, c.isDigit = true) (h : numberIn? 10 ds = some n) :
    mantissaOf? (mantissa ds) = some (n / 10 ^ (ds.length - 1) : ℚ) := by
  match ds with
  | [] => cases h
  | [first] =>
    rw [mantissa, mantissaOf?_whole all h]
    simp
  | first :: next :: others =>
    have read := @mantissaOf?_point [first] (next :: others) n
      (by simpa using all first (by simp)) (by simp) (by simp) h
    simpa [mantissa] using read

/-- The last digits stand behind the point. -/
theorem mantissaOf?_inside (all : ∀ c ∈ ds, c.isDigit = true) (h : numberIn? 10 ds = some n)
    {places : Nat} (moved : places ≠ 0) (inside : places < ds.length) :
    mantissaOf? (ds.take (ds.length - places) ++ '.' :: ds.drop (ds.length - places)) =
      some (n / 10 ^ places : ℚ) := by
  have before : ds.take (ds.length - places) ≠ [] := by
    rw [ne_eq, List.take_eq_nil_iff, not_or]
    exact ⟨by omega, (Template.digits_of_numberIn? h).1⟩
  have after : ds.drop (ds.length - places) ≠ [] := by
    rw [ne_eq, List.drop_eq_nil_iff]
    omega
  rw [mantissaOf?_point (fun c mem => all c (List.mem_of_mem_take mem)) before after
    (by rw [List.take_append_drop, h]), List.length_drop, Nat.sub_sub_self inside.le]

/-- All digits stand behind the point, with zeros in front of them. -/
theorem mantissaOf?_outside (h : numberIn? 10 ds = some n) {places : Nat}
    (outside : ds.length ≤ places) :
    mantissaOf? ('0' :: '.' :: (zeros (places - ds.length) ++ ds)) =
      some (n / 10 ^ places : ℚ) := by
  have full := (Template.digits_of_numberIn? h).1
  have padded : numberIn? 10 (['0'] ++ (zeros (places - ds.length) ++ ds)) = some n :=
    Template.numberIn?_zeros (by decide) (places - ds.length + 1) h
  have text : '0' :: '.' :: (zeros (places - ds.length) ++ ds) =
      ['0'] ++ '.' :: (zeros (places - ds.length) ++ ds) := rfl
  rw [text, mantissaOf?_point (by simp) (by simp) (by simp [full]) padded, List.length_append,
    zeros, List.length_replicate, Nat.sub_add_cancel outside]

theorem mantissaOf?_positional (d : Decimal) : mantissaOf? d.positional = some d.value := by
  have read := numberIn?_digits d.coefficient
  have all : ∀ c ∈ digits d.coefficient, c.isDigit = true := fun _ => isDigit_toDigits
  unfold Decimal.positional Decimal.value
  dsimp only
  generalize digits d.coefficient = ds at read all ⊢
  by_cases whole : 0 ≤ d.exponent
  · obtain ⟨count, exponent⟩ := Int.eq_ofNat_of_zero_le whole
    rw [if_pos whole, exponent, Int.toNat_natCast, zpow_natCast,
      mantissaOf?_whole _ (numberIn?_append_zeros read _)]
    · push_cast
      rfl
    · intro c mem
      exact (List.mem_append.mp mem).elim (all c) isDigit_zeros
  · obtain ⟨places, exponent⟩ : ∃ places : Nat, d.exponent = -places :=
      ⟨(-d.exponent).toNat, by omega⟩
    rw [if_neg whole, exponent, neg_neg, Int.toNat_natCast, zpow_neg, zpow_natCast,
      ← div_eq_mul_inv]
    split
    · rename_i inside
      apply mantissaOf?_inside all read _ inside
      omega
    · rename_i outside
      exact mantissaOf?_outside read (by omega)

end Mantissa

/-! ### Magnitudes and signs -/

section Magnitude

variable {text : List Char} {q : ℚ}

theorem magnitudeOf?_of_mantissaOf? (plain : ∀ c ∈ text, (c != 'e') = true)
    (h : mantissaOf? text = some q) : magnitudeOf? text = some q := by
  rw [magnitudeOf?, List.dropWhile_eq_nil_iff.mpr plain]
  exact h

theorem integerOf?_exponentPart (e : ℤ) : integerOf? (exponentPart e).tail = some e := by
  have read : numberIn? 10 (zeros (2 - (digits e.natAbs).length) ++ digits e.natAbs) =
      some e.natAbs := Template.numberIn?_zeros (by decide) _ (numberIn?_digits e.natAbs)
  by_cases negative : e < 0
  · rw [exponentPart, if_pos negative, List.tail_cons]
    exact @Template.integerOf?_signed e ['-'] (by decide) (by simp [negative]) _ read
  · rw [exponentPart, if_neg negative, List.tail_cons]
    exact @Template.integerOf?_signed e ['+'] (by decide) (by simp [negative]) _ read

theorem mem_mantissa {ds : List Char} {c : Char} (mem : c ∈ mantissa ds) : c ∈ ds ∨ c = '.' := by
  match ds with
  | [] => exact Or.inl mem
  | [_] => exact Or.inl mem
  | first :: next :: others =>
    simp only [mantissa, List.mem_cons] at mem ⊢
    tauto

theorem magnitudeOf?_positional (d : Decimal) : magnitudeOf? d.positional = some d.value := by
  apply magnitudeOf?_of_mantissaOf? _ (mantissaOf?_positional d)
  intro c mem
  rw [bne_iff_ne]
  rintro rfl
  exact absurd (Json.isNumeric_positional d mem) (by decide)

theorem magnitudeOf?_exponentPart (plain : ∀ c ∈ text, (c != 'e') = true)
    (h : mantissaOf? text = some q) (e : ℤ) :
    magnitudeOf? (text ++ exponentPart e) = some (q * 10 ^ e) := by
  have ends : ∀ c ∈ (exponentPart e).head?, (c != 'e') = false := by
    intro c first
    cases first
    rfl
  have power := integerOf?_exponentPart e
  rw [exponentPart, List.tail_cons] at power
  rw [magnitudeOf?, takeWhile_ends plain ends, dropWhile_ends plain ends, h, exponentPart]
  dsimp only [Option.bind_eq_bind, Option.bind_some]
  rw [power]
  rfl

theorem magnitudeOf?_scientific (d : Decimal) : magnitudeOf? d.scientific = some d.value := by
  have all : ∀ c ∈ digits d.coefficient, c.isDigit = true := fun _ => isDigit_toDigits
  have plain : ∀ c ∈ mantissa (digits d.coefficient), (c != 'e') = true := by
    intro c mem
    rw [bne_iff_ne]
    rintro rfl
    rcases mem_mantissa mem with mem | point
    · exact absurd (all _ mem) (by decide)
    · exact absurd point (by decide)
  rw [Decimal.scientific, magnitudeOf?_exponentPart plain
    (mantissaOf?_mantissa all (numberIn?_digits _)), Decimal.leading, zpow_add₀ (by norm_num),
    zpow_natCast, Decimal.value]
  refine congrArg some ?_
  field_simp

/-- A magnitude has no sign of its own. -/
theorem head?_ne_minus (h : magnitudeOf? text = some q) : text.head? ≠ some '-' := by
  intro first
  obtain ⟨rest, rfl⟩ := List.head?_eq_some_iff.mp first
  have unread (more : List Char) : mantissaOf? ('-' :: more) = none := rfl
  rw [magnitudeOf?] at h
  split at h
  · rw [unread] at h
    cases h
  · rw [List.takeWhile_cons_of_pos (by decide), unread] at h
    cases h

theorem decimalOf?_signed (h : magnitudeOf? text = some q) (negative : Bool) :
    decimalOf? (signed negative text) = some (negative, q) := by
  cases negative with
  | true =>
    show (magnitudeOf? text).map _ = _
    rw [h]
    rfl
  | false =>
    have first := head?_ne_minus h
    rw [signed, if_neg Bool.false_ne_true, decimalOf?, h, Option.map_some]
    rintro rest rfl
    exact first rfl

/-- The general spelling is one of the two others, so it is read as the same number. -/
theorem magnitudeOf?_general (d : Decimal) : magnitudeOf? d.general = some d.value := by
  unfold Decimal.general
  split
  · exact magnitudeOf?_positional d
  · exact magnitudeOf?_scientific d

end Magnitude

/-! ### The form with an exponent -/

/-- A digit other than zero, perhaps a point and digits of which the last one is not zero, the
letter e, a sign, and at least two digits, with zeros in front only to make them two. -/
structure ScientificForm where
  lead : Char
  part : List Char
  minus : Bool
  power : List Char
  isDigit_lead : lead.isDigit = true
  lead_ne_zero : lead ≠ '0'
  isDigit_part : ∀ c ∈ part, c.isDigit = true
  zero_not_last : '0' ∉ part.getLast?
  isDigit_power : ∀ c ∈ power, c.isDigit = true
  two_le_length : 2 ≤ power.length
  padded : power.length = 2 ∨ '0' ∉ power.head?

def ScientificForm.text (form : ScientificForm) : List Char :=
  form.lead :: ((if form.part = [] then [] else '.' :: form.part) ++
    'e' :: (if form.minus then '-' else '+') :: form.power)

theorem ScientificForm.mem_text (form : ScientificForm) : 'e' ∈ form.text := by
  simp [text]

/-- The digits of an exponent, with the zeros in front of them. -/
theorem power_spec (n : Nat) :
    let power := zeros (2 - (digits n).length) ++ digits n
    (∀ c ∈ power, c.isDigit = true) ∧ 2 ≤ power.length ∧
      (power.length = 2 ∨ '0' ∉ power.head?) := by
  have length : (zeros (2 - (digits n).length) ++ digits n).length =
      2 - (digits n).length + (digits n).length := by
    rw [List.length_append, zeros, List.length_replicate]
  refine ⟨?_, by omega, ?_⟩
  · intro c mem
    exact (List.mem_append.mp mem).elim isDigit_zeros isDigit_toDigits
  · by_cases short : (digits n).length ≤ 2
    · exact Or.inl (by omega)
    · right
      have large : n ≠ 0 := by
        rintro rfl
        exact short (by decide)
      obtain ⟨c, cs, same, nonzero⟩ := toDigits_eq_cons large
      rw [Nat.sub_eq_zero_of_le (by omega), digits, same]
      simpa [zeros] using nonzero

/-- Without a trailing zero the scientific spelling has no superfluous digit. -/
theorem scientific_eq_text {d : Decimal} (h : d.coefficient % 10 ≠ 0) :
    ∃ form : ScientificForm, d.scientific = form.text := by
  obtain ⟨lead, part, same, nonzero⟩ := toDigits_eq_cons
    (show d.coefficient ≠ 0 by omega)
  have all : ∀ c ∈ lead :: part, c.isDigit = true := by
    rw [← same]
    intro c
    exact isDigit_toDigits
  obtain ⟨first, others⟩ := List.forall_mem_cons.mp all
  have last : '0' ∉ part.getLast? := by
    have ends := zero_not_mem_getLast?_digits h
    rw [digits, same] at ends
    cases part with
    | nil => simp
    | cons next more => rwa [List.getLast?_cons_cons] at ends
  obtain ⟨digits_power, two, padded⟩ := power_spec d.leading.natAbs
  refine ⟨⟨lead, part, d.leading < 0, _, first, nonzero, others, last, digits_power, two, padded⟩,
    ?_⟩
  rw [Decimal.scientific, digits, same, exponentPart]
  cases part <;> simp [mantissa, ScientificForm.text, digits]

end JsonQuery
