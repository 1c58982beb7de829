import JsonQuery.Text.Characters
import Mathlib

/-!
# Classes of characters

Where the classes of characters lie among the codes, and how far a run of one class reaches.
-/

namespace JsonQuery

theorem takeWhile_ends {p : Char → Bool} {word more : List Char} (all : ∀ c ∈ word, p c = true)
    (ends : ∀ c ∈ more.head?, p c = false) : (word ++ more).takeWhile p = word := by
  rw [List.takeWhile_append_of_pos all]
  cases more with
  | nil => simp
  | cons c rest => simp [ends c rfl]

theorem dropWhile_ends {p : Char → Bool} {word more : List Char} (all : ∀ c ∈ word, p c = true)
    (ends : ∀ c ∈ more.head?, p c = false) : (word ++ more).dropWhile p = more := by
  rw [List.dropWhile_append_of_pos all]
  cases more with
  | nil => rfl
  | cons c rest => simp [ends c rfl]

theorem eq_false_of_head?_dropWhile {p : Char → Bool} {text : List Char} {c : Char}
    (first : c ∈ (text.dropWhile p).head?) : p c = false := by
  have stop := List.head?_dropWhile_not p text
  rwa [Option.mem_def.mp first] at stop

theorem toNat_of_isAlpha {c : Char} (alpha : c.isAlpha = true) : 65 ≤ c.toNat ∧ c.toNat ≤ 122 := by
  have codes : 'A'.val.toNat = 65 ∧ 'Z'.val.toNat = 90 ∧ 'a'.val.toNat = 97 ∧ 'z'.val.toNat = 122 :=
    ⟨rfl, rfl, rfl, rfl⟩
  have same : c.val.toNat = c.toNat := rfl
  simp only [Char.isAlpha, Char.isUpper, Char.isLower, Bool.or_eq_true, Bool.and_eq_true,
    decide_eq_true_eq, ge_iff_le, UInt32.le_iff_toNat_le] at alpha
  omega

theorem toNat_of_isDigit {c : Char} (digit : c.isDigit = true) : 48 ≤ c.toNat ∧ c.toNat ≤ 57 :=
  Char.isDigit_iff_toNat.mp digit

theorem not_isAlpha_of_isDigit {c : Char} (digit : c.isDigit = true) : ¬c.isAlpha = true := by
  intro alpha
  have := toNat_of_isAlpha alpha
  have := toNat_of_isDigit digit
  omega

theorem isBlank_eq_false {c : Char} (low : 0x20 < c.toNat) (high : c.toNat < 0x85) :
    Text.isBlank c = false := by
  simp [Text.isBlank, Text.blankRanges]
  omega

/-- The decimal digits of other scripts lie above. -/
theorem isDecimalDigit_eq_isDigit {c : Char} (low : c.toNat < 0x0660) :
    Text.isDecimalDigit c = c.isDigit := by
  have runs : ∀ first ∈ Text.digitRuns, first = 48 ∨ 0x0660 ≤ first := by decide
  refine Bool.eq_iff_iff.mpr ⟨fun digit => Char.isDigit_iff_toNat.mpr ?_,
    Text.isDecimalDigit_of_isDigit⟩
  show 48 ≤ c.toNat ∧ c.toNat ≤ 57
  obtain ⟨first, mem, inside⟩ := List.any_eq_true.mp digit
  rw [Bool.and_eq_true, decide_eq_true_eq, decide_eq_true_eq] at inside
  rcases runs first mem with rfl | high <;> omega

end JsonQuery
