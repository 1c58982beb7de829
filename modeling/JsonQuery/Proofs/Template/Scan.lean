import JsonQuery.Proofs.Text.Classes
import JsonQuery.Template.Specifier

/-!
# Templates from left to right

`Specifier.WellFormed` says which texts are specifiers, and `specifier?` finds exactly these. A
`Scan` of a template takes every specifier that it comes to and else one character. A template has
one scan, its `pieces`.
-/

namespace JsonQuery.Template

/-! ### Specifiers -/

/-- A run of flags, digits for the width, digits for the precision behind a point, and a verb. A
zero in front of the width is a flag. -/
structure Specifier.WellFormed (s : Specifier) : Prop where
  flags : ∀ c ∈ s.flags, isFlag c = true
  run : ∀ c ∈ s.width.head?, isFlag c = false
  width : ∀ c ∈ s.width, Text.isDecimalDigit c = true
  precision : ∀ digits ∈ s.precision, digits ≠ [] ∧ ∀ c ∈ digits, Text.isDecimalDigit c = true
  verb : isVerb s.verb = true

theorem isVerb_cases {c : Char} (verb : isVerb c = true) :
    c = '%' ∨ 65 ≤ c.toNat ∧ c.toNat ≤ 122 := by
  rw [isVerb, Bool.or_eq_true, decide_eq_true_eq] at verb
  rcases verb with alpha | rfl
  · exact .inr (toNat_of_isAlpha alpha)
  · exact .inl rfl

theorem isFlag_of_isVerb {c : Char} (verb : isVerb c = true) : isFlag c = false := by
  rcases isVerb_cases verb with rfl | ⟨low, -⟩
  · rfl
  · simp only [isFlag, Bool.or_eq_false_iff, decide_eq_false_iff_not]
    refine ⟨⟨⟨⟨?_, ?_⟩, ?_⟩, ?_⟩, ?_⟩ <;> rintro rfl <;> exact absurd low (by decide)

theorem ne_point_of_isVerb {c : Char} (verb : isVerb c = true) : c ≠ '.' := by
  rintro rfl
  exact absurd verb (by decide)

theorem isDecimalDigit_of_isVerb {c : Char} (verb : isVerb c = true) :
    Text.isDecimalDigit c = false := by
  rcases isVerb_cases verb with rfl | ⟨low, high⟩
  · exact isDecimalDigit_eq_isDigit (by decide)
  · rw [isDecimalDigit_eq_isDigit (by omega)]
    refine Bool.eq_false_iff.mpr fun digit => ?_
    have := toNat_of_isDigit digit
    omega

section WellFormed

variable {s : Specifier} (wf : s.WellFormed) (rest : List Char)

include wf

theorem Specifier.WellFormed.head_pointed :
    ∀ c ∈ (pointed s.precision ++ s.verb :: rest).head?, isFlag c = false ∧
      Text.isDecimalDigit c = false := by
  cases s.precision with
  | none =>
    rintro c ⟨⟩
    exact ⟨isFlag_of_isVerb wf.verb, isDecimalDigit_of_isVerb wf.verb⟩
  | some digits =>
    rintro c ⟨⟩
    exact ⟨rfl, isDecimalDigit_eq_isDigit (by decide)⟩

theorem Specifier.WellFormed.head_width :
    ∀ c ∈ (s.width ++ (pointed s.precision ++ s.verb :: rest)).head?, isFlag c = false := by
  cases width : s.width with
  | nil => exact fun c mem => (wf.head_pointed rest c mem).1
  | cons digit digits =>
    have run := wf.run
    rw [width] at run
    exact run

theorem Specifier.WellFormed.precision?_pointed :
    precision? (pointed s.precision ++ s.verb :: rest) = (s.precision, s.verb :: rest) := by
  cases precision : s.precision with
  | none =>
    simp only [pointed, List.nil_append]
    unfold precision?
    split
    case h_1 point =>
      exact absurd (List.cons.inj point).1 (ne_point_of_isVerb wf.verb)
    case h_2 => rfl
  | some digits =>
    obtain ⟨nonempty, all⟩ := wf.precision digits precision
    have ends : ∀ c ∈ (s.verb :: rest).head?, Text.isDecimalDigit c = false := by
      rintro c ⟨⟩
      exact isDecimalDigit_of_isVerb wf.verb
    simp only [pointed, List.cons_append, precision?]
    rw [takeWhile_ends all ends, dropWhile_ends all ends, if_neg (by simpa using nonempty)]

theorem Specifier.WellFormed.specifier?_body : specifier? (s.body ++ rest) = some (s, rest) := by
  have body : s.body ++ rest =
      s.flags ++ (s.width ++ (pointed s.precision ++ s.verb :: rest)) := by
    simp [body]
  have width := fun c mem => (wf.head_pointed rest c mem).2
  rw [body, specifier?]
  simp only [takeWhile_ends wf.flags (wf.head_width rest),
    dropWhile_ends wf.flags (wf.head_width rest), takeWhile_ends wf.width width,
    dropWhile_ends wf.width width, wf.precision?_pointed rest, wf.verb, if_true]

end WellFormed

theorem precision_of_precision? {text rest digits : List Char}
    (h : precision? text = (some digits, rest)) :
    digits ≠ [] ∧ ∀ c ∈ digits, Text.isDecimalDigit c = true := by
  unfold precision? at h
  split at h
  · split at h
    · cases h
    · rename_i nonempty
      cases h
      exact ⟨by simpa using nonempty, List.all_eq_true.mp List.all_takeWhile⟩
  · cases h

theorem wellFormed_of_specifier? {text rest : List Char} {s : Specifier}
    (h : specifier? text = some (s, rest)) : s.WellFormed := by
  unfold specifier? at h
  dsimp only at h
  split at h
  case h_1 precision verb after found =>
    split at h
    case isTrue isVerb =>
      cases h
      refine ⟨List.all_eq_true.mp List.all_takeWhile, fun c mem => ?_,
        List.all_eq_true.mp List.all_takeWhile, fun digits mem => ?_, isVerb⟩
      · rw [List.head?_takeWhile, Option.mem_def, Option.filter_eq_some_iff] at mem
        exact eq_false_of_head?_dropWhile mem.1
      · cases mem
        exact precision_of_precision? found
    case isFalse => cases h
  case h_2 => cases h

/-- What starts with a specifier starts with one only. -/
theorem specifier?_eq_some_iff {text rest : List Char} {s : Specifier} :
    specifier? text = some (s, rest) ↔ s.WellFormed ∧ text = s.body ++ rest :=
  ⟨fun h => ⟨wellFormed_of_specifier? h, eq_of_specifier? h⟩,
    fun ⟨wf, same⟩ => same ▸ wf.specifier?_body rest⟩

/-! ### Scans -/

/-- Goes through a template from left to right. -/
inductive Scan : List Char → List Piece → Prop where
  | done : Scan [] []
  | specifier {s : Specifier} {template rest : List Char} {parts : List Piece} :
      s.WellFormed → template = s.spelling ++ rest → Scan rest parts →
      Scan template (.specifier s :: parts)
  | ordinary {c : Char} {text : List Char} {parts : List Piece} :
      (∀ (s : Specifier) (rest : List Char), s.WellFormed → c :: text ≠ s.spelling ++ rest) → Scan text parts →
      Scan (c :: text) (.ordinary c :: parts)

theorem cons_eq_spelling_iff {c : Char} {text rest : List Char} {s : Specifier} :
    s.WellFormed ∧ c :: text = s.spelling ++ rest ↔ c = '%' ∧ specifier? text = some (s, rest) := by
  rw [specifier?_eq_some_iff, Specifier.spelling, List.cons_append, List.cons.injEq]
  exact and_left_comm

theorem scan_pieces (template : List Char) : Scan template (pieces template) := by
  fun_induction pieces template with
  | case1 => exact .done
  | case2 text s rest found ih =>
    obtain ⟨wf, same⟩ := cons_eq_spelling_iff.mpr ⟨rfl, found⟩
    exact .specifier wf same ih
  | case3 text none ih =>
    refine .ordinary (fun s rest wf same => ?_) ih
    rw [(cons_eq_spelling_iff.mp ⟨wf, same⟩).2] at none
    cases none
  | case4 c text other ih =>
    exact .ordinary (fun s rest wf same => other (cons_eq_spelling_iff.mp ⟨wf, same⟩).1) ih

theorem Scan.eq_pieces {template : List Char} {parts : List Piece} (h : Scan template parts) :
    parts = pieces template := by
  induction h with
  | done => rw [pieces]
  | @specifier s template rest parts wf same _ ih =>
    cases template with
    | nil => cases same
    | cons c text =>
      obtain ⟨rfl, found⟩ := cons_eq_spelling_iff.mp ⟨wf, same⟩
      rw [pieces, if_pos rfl]
      split
      · rename_i other
        rw [found] at other
        cases other
        rw [ih]
      · rename_i none
        rw [found] at none
        cases none
  | @ordinary c text parts fits _ ih =>
    rw [pieces]
    split
    · rename_i percent
      split
      · rename_i s rest found
        obtain ⟨wf, same⟩ := cons_eq_spelling_iff.mpr ⟨percent, found⟩
        exact absurd same (fits s rest wf)
      · rw [ih]
    · rw [ih]

theorem scan_iff {template : List Char} {parts : List Piece} :
    Scan template parts ↔ parts = pieces template :=
  ⟨Scan.eq_pieces, fun same => same ▸ scan_pieces template⟩

end JsonQuery.Template
