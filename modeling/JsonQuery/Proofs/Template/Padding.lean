import JsonQuery.Proofs.Template.Numerals
import JsonQuery.Proofs.Template.Substitution
import Mathlib.Data.List.DropRight

/-!
# Numbers filled up to a width

Filling up puts blanks around a number or zeros behind its sign, so that without the blanks it is
still the same number (`trimmed_pad`). A template of one specifier writes an integer or the bytes of
a text in a form from which they can be read back, whatever the flags, the width and the precision
are (`output_reads`).
-/

namespace JsonQuery.Template

/-- Without the blanks at both ends. -/
def trimmed (text : List Char) : List Char := (text.dropWhile (· = ' ')).rdropWhile (· = ' ')

def withoutBlanks (text : List Char) : List Char := text.filter (· ≠ ' ')

def blanks (count : Nat) : List Char := List.replicate count ' '

/-! ### Filling up -/

theorem splitSign_append (text : List Char) : (splitSign text).1 ++ (splitSign text).2 = text := by
  unfold splitSign
  split <;> rfl

theorem length_pad (f : Format) (numeric : Bool) (text : List Char) :
    (f.pad numeric text).length = max (f.width.getD 0) text.length := by
  have parts := congrArg List.length (splitSign_append text)
  rw [List.length_append] at parts
  unfold Format.pad
  dsimp only
  split
  · rw [List.length_append, List.length_replicate]
    omega
  · split
    · rw [List.length_append, List.length_append, zeros, List.length_replicate]
      omega
    · rw [List.length_append, List.length_replicate]
      omega

/-- Between the blanks stands the text, or the text with zeros behind its sign. -/
theorem exists_pad (f : Format) (numeric : Bool) (text : List Char) :
    ∃ before content after, f.pad numeric text = blanks before ++ content ++ blanks after ∧
      (content = text ∨ numeric = true ∧
        ∃ count, content = (splitSign text).1 ++ (zeros count ++ (splitSign text).2)) := by
  unfold Format.pad
  dsimp only
  split
  · exact ⟨0, text, _, rfl, .inl rfl⟩
  · split
    · rename_i zero
      refine ⟨0, _, 0, (List.append_nil _).symm, .inr ⟨?_, _, rfl⟩⟩
      exact (Bool.and_eq_true_iff.mp zero).2
    · exact ⟨_, text, 0, (List.append_nil _).symm, .inl rfl⟩

theorem trimmed_blanks {content : List Char} (nonempty : content ≠ []) (solid : ' ' ∉ content)
    (before after : Nat) : trimmed (blanks before ++ content ++ blanks after) = content := by
  have blank : ∀ count, ∀ c ∈ blanks count, decide (c = ' ') = true := by
    intro count c mem
    exact decide_eq_true (List.mem_replicate.mp mem).2
  have ends : ∀ {text more : List Char}, text ≠ [] → ' ' ∉ text →
      ∀ c ∈ (text ++ more).head?, decide (c = ' ') = false := by
    intro text more nonempty solid c first
    rw [List.head?_append_of_ne_nil _ nonempty] at first
    refine decide_eq_false ?_
    rintro rfl
    exact solid (List.mem_of_mem_head? first)
  have reversed : ∀ c ∈ content.reverse.head?, decide (c = ' ') = false := by
    have := @ends content.reverse [] (by simpa using nonempty) (by simpa using solid)
    rwa [List.append_nil] at this
  have mirrored : (blanks after).reverse = blanks after := List.reverse_replicate
  rw [trimmed, List.append_assoc, dropWhile_ends (blank before) (ends nonempty solid),
    List.rdropWhile, List.reverse_append, mirrored, dropWhile_ends (blank after) reversed,
    List.reverse_reverse]

theorem withoutBlanks_blanks {content : List Char} (solid : ' ' ∉ content) (before after : Nat) :
    withoutBlanks (blanks before ++ content ++ blanks after) = content := by
  have blank : ∀ count, (blanks count).filter (· ≠ ' ') = [] := by
    intro count
    simp [blanks]
  have kept : content.filter (· ≠ ' ') = content := by
    refine List.filter_eq_self.mpr fun c mem => decide_eq_true ?_
    rintro rfl
    exact solid mem
  rw [withoutBlanks, List.filter_append, List.filter_append, blank, blank, kept, List.nil_append,
    List.append_nil]

section Numbers

variable {base n : Nat} {sign ds : List Char}

theorem blank_not_mem (h : numberIn? base ds = some n) : ' ' ∉ ds := by
  intro mem
  exact absurd ((digits_of_numberIn? h).2 _ mem) (by decide)

theorem splitSign_signed (mem : sign ∈ signs) (h : numberIn? base ds = some n) :
    splitSign (sign ++ ds) = (sign, ds) := by
  simp only [signs, List.mem_cons, List.not_mem_nil, or_false] at mem
  rcases mem with rfl | rfl | rfl
  · obtain ⟨nonempty, digits⟩ := digits_of_numberIn? h
    obtain ⟨c, rest, rfl⟩ := List.exists_cons_of_ne_nil nonempty
    have digit := digits c List.mem_cons_self
    rw [List.nil_append]
    unfold splitSign
    split
    · rename_i same
      cases same
      exact absurd digit (by decide)
    · rename_i same
      cases same
      exact absurd digit (by decide)
    · rfl
  · rfl
  · rfl

theorem withoutBlanks_pad {text : List Char} (solid : ' ' ∉ text) (f : Format) :
    withoutBlanks (f.pad false text) = text := by
  obtain ⟨before, content, after, padded, filled⟩ := exists_pad f false text
  rcases filled with rfl | ⟨numeric, -⟩
  · rw [padded, withoutBlanks_blanks solid]
  · cases numeric

/-- Without the blanks the sign is still the sign and the number the number. -/
theorem trimmed_pad (pos : 0 < base) (mem : sign ∈ signs) (h : numberIn? base ds = some n)
    (f : Format) (numeric : Bool) :
    ∃ ds', trimmed (f.pad numeric (sign ++ ds)) = sign ++ ds' ∧ numberIn? base ds' = some n := by
  have solid : ∀ {ds}, numberIn? base ds = some n → ' ' ∉ sign ++ ds := by
    intro ds h here
    rcases List.mem_append.mp here with here | here
    · simp only [signs, List.mem_cons, List.not_mem_nil, or_false] at mem
      rcases mem with rfl | rfl | rfl <;> simp at here
    · exact blank_not_mem h here
  have nonempty : ∀ {ds}, numberIn? base ds = some n → sign ++ ds ≠ [] := by
    intro ds h
    simp [(digits_of_numberIn? h).1]
  obtain ⟨before, content, after, padded, filled⟩ := exists_pad f numeric (sign ++ ds)
  rw [padded]
  rcases filled with rfl | ⟨-, count, rfl⟩
  · exact ⟨ds, trimmed_blanks (nonempty h) (solid h) before after, h⟩
  · rw [splitSign_signed mem h]
    have more := numberIn?_zeros pos count h
    exact ⟨_, trimmed_blanks (nonempty more) (solid more) before after, more⟩

theorem numberIn?_trimmed_pad (pos : 0 < base) (h : numberIn? base ds = some n) (f : Format)
    (numeric : Bool) : numberIn? base (trimmed (f.pad numeric ds)) = some n := by
  have unsigned : [] ∈ signs := by decide
  obtain ⟨ds', trim, same⟩ := trimmed_pad pos unsigned h f numeric
  rw [List.nil_append, List.nil_append] at trim
  rw [trim, same]

end Numbers

/-! ### Specifiers with zeros in front of the width -/

/-- Flags in any number and order, and then a width and a precision in range. The width may begin
with zeros. -/
structure Specifier.Fitting (s : Specifier) : Prop where
  flags : ∀ c ∈ s.flags, isFlag c = true
  inRange : s.InRange
  precision : s.precision ≠ some []
  verb : isVerb s.verb = true

theorem eq_zero_of_isFlag {c : Char} (flag : isFlag c = true) (digit : c.isDigit = true) :
    c = '0' := by
  simp only [isFlag, Bool.or_eq_true, decide_eq_true_eq] at flag
  rcases flag with (((rfl | rfl) | rfl) | rfl) | rfl
  · exact absurd digit (by decide)
  · exact absurd digit (by decide)
  · exact absurd digit (by decide)
  · rfl
  · exact absurd digit (by decide)

/-- The zeros do not change the number. -/
theorem ofDigitChars_dropWhile {ds : List Char} (digits : ds.all Char.isDigit = true) :
    Nat.ofDigitChars 10 (ds.dropWhile isFlag) 0 = Nat.ofDigitChars 10 ds 0 := by
  induction ds with
  | nil => rfl
  | cons c ds ih =>
    rw [List.all_cons, Bool.and_eq_true] at digits
    rw [List.dropWhile_cons]
    split
    · rename_i flag
      obtain rfl := eq_zero_of_isFlag flag digits.1
      rw [ih digits.2, Nat.ofDigitChars_cons]
      rfl
    · rfl

namespace Specifier.Fitting

variable {s : Specifier} (fitting : s.Fitting)

include fitting

theorem widthDigits : s.width.all Char.isDigit = true := fitting.inRange.1.1

theorem wellFormed : s.settled.WellFormed := by
  refine wellFormed_settled fitting.flags ?_ ?_ fitting.verb
  · intro c mem
    exact Text.isDecimalDigit_of_isDigit (List.all_eq_true.mp fitting.widthDigits c mem)
  · intro ds mem
    have same : s.precision = some ds := mem
    have inRange := fitting.inRange.2
    have nonempty := fitting.precision
    rw [same] at inRange nonempty
    refine ⟨fun empty => nonempty (congrArg some empty), fun c here => ?_⟩
    exact Text.isDecimalDigit_of_isDigit (List.all_eq_true.mp inRange.1 c here)

theorem inRange_settled : s.settled.InRange := by
  obtain ⟨⟨digits, small⟩, precision⟩ := fitting.inRange
  refine ⟨⟨?_, ?_⟩, precision⟩
  · exact List.all_eq_true.mpr fun c mem =>
      List.all_eq_true.mp digits c ((List.dropWhile_suffix isFlag).subset mem)
  · exact (ofDigitChars_dropWhile digits).trans_le small

theorem width_settled :
    s.settled.format.width.getD 0 = Nat.ofDigitChars 10 s.width 0 := by
  rw [← ofDigitChars_dropWhile fitting.widthDigits]
  show (if s.width.dropWhile isFlag = [] then none else some _).getD 0 = _
  split
  · rename_i empty
    rw [empty]
    rfl
  · rfl

theorem plus_settled : s.settled.format.plus = s.flags.contains '+' := by
  have zeros : '+' ∉ s.width.takeWhile isFlag := by
    intro mem
    have digit := List.all_eq_true.mp fitting.widthDigits _ ((List.takeWhile_prefix _).subset mem)
    exact absurd digit (by decide)
  show (s.flags ++ s.width.takeWhile isFlag).contains '+' = _
  rw [Bool.eq_iff_iff]
  simp [zeros]

end Specifier.Fitting

/-! ### Templates of one specifier -/

/-- What stands for a template of this specifier and nothing else. -/
def Specifier.output (s : Specifier) (v : Value) : List Char :=
  (fill (String.ofList s.spelling) [v]).toList

theorem Specifier.Fitting.output_eq {s : Specifier} (fitting : s.Fitting) (other : s.verb ≠ '%')
    (v : Value) : s.output v = s.settled.format.render v := by
  have spelled : s.spelling = s.settled.spelling ++ [] := by
    rw [spelling, spelling, body_settled, List.append_nil]
  have parts : pieces s.spelling = [.specifier s.settled] := by
    have scan := Scan.specifier fitting.wellFormed spelled .done
    exact scan.eq_pieces.symm
  have verb : s.settled.verb ≠ '%' := other
  rw [output, fill, String.toList_ofList, String.toList_ofList, parts, fillPieces_eq,
    substitution_cons]
  simp [substitution, Piece.filled, fitting.inRange_settled, verb]

theorem Format.body_congr {f g : Format} (plus : f.plus = g.plus)
    (precision : f.precision = g.precision) (verb : f.verb = g.verb) : f.body = g.body := by
  obtain ⟨left, _, zero, width, _, _⟩ := f
  cases plus
  cases precision
  cases verb
  rfl

/-- The width adds blanks or zeros, and nothing if the text is that wide already. -/
theorem Specifier.Fitting.length_output {s : Specifier} (fitting : s.Fitting)
    (other : s.verb ≠ '%') (v : Value) :
    (s.output v).length =
      max (Nat.ofDigitChars 10 s.width 0) ({ s with width := [] }.output v).length := by
  have narrow : Specifier.Fitting { s with width := [] } :=
    ⟨fitting.flags, ⟨within_nil _, fitting.inRange.2⟩, fitting.precision, fitting.verb⟩
  have plus : s.settled.format.plus = (settled { s with width := [] }).format.plus := by
    rw [fitting.plus_settled, narrow.plus_settled]
  have body := Format.body_congr plus rfl rfl
  rw [fitting.output_eq other, narrow.output_eq other, Format.render, Format.render, length_pad,
    length_pad, fitting.width_settled, narrow.width_settled, body]
  simp [Nat.ofDigitChars]

/-! ### What is written for integers and texts -/

section Body

variable {f : Format}

theorem body_decimal (verb : f.verb = 'd') (n : Int64) :
    ∃ sign ds, f.body (.integer n) = sign ++ ds ∧ sign ∈ signs ∧
      (n.toInt < 0 ↔ sign = ['-']) ∧ numberIn? 10 ds = some n.toInt.natAbs := by
  have body : f.body (.integer n) = withPlus f.plus (0 ≤ n.toInt) (integerText n.toInt) := by
    obtain ⟨_, _, _, _, _, _⟩ := f
    cases verb
    rfl
  have value := numberIn?_digits n.toInt.natAbs
  let sign : List Char := if n.toInt < 0 then ['-'] else if f.plus then ['+'] else []
  refine ⟨sign, digits n.toInt.natAbs, ?_, ?_, ?_, value⟩
  · rw [body, withPlus, integerText, signed]
    grind
  · simp only [sign]
    split_ifs <;> decide
  · simp only [sign]
    split_ifs <;> simp_all

theorem body_word {base : Nat}
    (mem : (f.verb, base) ∈ [('x', 16), ('X', 16), ('o', 8), ('b', 2)]) (n : Int64) :
    numberIn? base (f.body (.integer n)) = some (n.toInt % 2 ^ 64).toNat := by
  obtain ⟨_, _, _, _, _, verb⟩ := f
  simp only [List.mem_cons, Prod.mk.injEq, List.not_mem_nil, or_false] at mem
  rcases mem with ⟨rfl, rfl⟩ | ⟨rfl, rfl⟩ | ⟨rfl, rfl⟩ | ⟨rfl, rfl⟩
  · exact numberIn?_wordDigits (by decide) n
  · exact numberIn?_upper_wordDigits n
  · exact numberIn?_wordDigits (by decide) n
  · exact numberIn?_wordDigits (by decide) n

theorem body_bytes (mem : f.verb ∈ ['x', 'X']) (t : String) :
    bytesOfHex? (f.body (.string t)) = some t.toUTF8.data.toList := by
  obtain ⟨_, _, _, _, _, verb⟩ := f
  simp only [List.mem_cons, List.not_mem_nil, or_false] at mem
  rcases mem with rfl | rfl
  · exact (bytesOfHex?_hexBytes t).1
  · exact (bytesOfHex?_hexBytes t).2

end Body

/-- A template of one specifier with any flags, width and precision. The verb `d` writes an integer
as a decimal number with a sign, `x`, `X`, `o` and `b` write it modulo two to the power of 64 in
their base, and `x` and `X` write two hexadecimal digits for each byte of a text in UTF-8. The
length is that of the same specifier without a width, or else the width. -/
theorem output_reads {s : Specifier} (fitting : s.Fitting) :
    (s.verb = 'd' → ∀ n : Int64,
      integerOf? (trimmed (s.output (.integer n))) = some n.toInt) ∧
    (∀ base, (s.verb, base) ∈ [('x', 16), ('X', 16), ('o', 8), ('b', 2)] → ∀ n : Int64,
      numberIn? base (trimmed (s.output (.integer n))) = some (n.toInt % 2 ^ 64).toNat) ∧
    (s.verb ∈ ['x', 'X'] → ∀ t : String,
      (withoutBlanks (s.output (.string t))).length % 2 = 0 ∧
      bytesOfHex? (withoutBlanks (s.output (.string t))) = some t.toUTF8.data.toList) ∧
    (s.verb ∈ ['d', 'x', 'X', 'o', 'b'] → ∀ v, (s.output v).length =
      max (Nat.ofDigitChars 10 s.width 0) ({ s with width := [] }.output v).length) := by
  have other {verbs : List Char} (mem : s.verb ∈ verbs) (plain : '%' ∉ verbs) : s.verb ≠ '%' :=
    fun percent => plain (percent ▸ mem)
  refine ⟨fun verb n => ?_, fun base mem n => ?_, fun mem t => ?_, fun mem v => ?_⟩
  · obtain ⟨sign, ds, body, mem, negative, value⟩ := body_decimal (f := s.settled.format) verb n
    rw [fitting.output_eq (by simp [verb]), Format.render, body]
    obtain ⟨ds', trim, same⟩ := trimmed_pad (by decide) mem value s.settled.format _
    rw [trim]
    exact integerOf?_signed mem negative same
  · have usual : ∀ p ∈ [('x', 16), ('X', 16), ('o', 8), ('b', 2)], p.1 ≠ '%' ∧ 0 < p.2 := by decide
    obtain ⟨other, pos⟩ := usual _ mem
    rw [fitting.output_eq other, Format.render]
    exact numberIn?_trimmed_pad pos (body_word mem n) _ _
  · have value := body_bytes (f := s.settled.format) mem t
    obtain ⟨even, digits⟩ := even_of_bytesOfHex? value
    have solid : ' ' ∉ s.settled.format.body (.string t) := by
      intro blank
      exact absurd (digits _ blank) (by decide)
    have text : (isNumeric s.settled.format.verb && (Value.string t).asFloat?.isSome) = false :=
      Bool.and_false _
    rw [fitting.output_eq (other mem (by decide)), Format.render, text, withoutBlanks_pad solid]
    exact ⟨by omega, value⟩
  · exact fitting.length_output (other mem (by decide)) v

/-- Flags of all kinds, a width with zeros in front, and the least integer of all. -/
theorem output_reads_least :
    Specifier.Fitting ⟨['-', '0', ' ', '+', '#'], ['0', '2', '4'], some ['3'], 'd'⟩ ∧
      integerOf? (trimmed (Specifier.output
        ⟨['-', '0', ' ', '+', '#'], ['0', '2', '4'], some ['3'], 'd'⟩
        (.integer (-9223372036854775808)))) = some (-9223372036854775808) := by
  have fitting : Specifier.Fitting
      ⟨['-', '0', ' ', '+', '#'], ['0', '2', '4'], some ['3'], 'd'⟩ := by
    refine ⟨?_, ?_, ?_, ?_⟩
    · simp [isFlag]
    · decide +kernel
    · simp
    · decide
  exact ⟨fitting, (output_reads fitting).1 rfl _⟩

end JsonQuery.Template
