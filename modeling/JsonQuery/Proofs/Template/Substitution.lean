import JsonQuery.Proofs.Template.Matching
import JsonQuery.Template.Render

/-!
# What a template is filled with

`Piece.filled` says what stands for a piece, given how many values the pieces in front of it take.
`fill` writes this for one piece after the other.
-/

namespace JsonQuery.Template

/-! ### Formats -/

/-- The digits are ASCII digits and not above the limit. -/
def Within (limit : Nat) (digits : List Char) : Prop :=
  digits.all Char.isDigit = true ∧ Nat.ofDigitChars 10 digits 0 ≤ limit

instance (limit : Nat) (digits : List Char) : Decidable (Within limit digits) :=
  inferInstanceAs (Decidable (_ ∧ _))

theorem bounded?_eq (limit : Nat) (digits : List Char) :
    bounded? limit digits =
      if Within limit digits then some (Nat.ofDigitChars 10 digits 0) else none := by
  rw [bounded?, number?]
  by_cases ascii : digits.all Char.isDigit = true
  · have within : Within limit digits ↔ Nat.ofDigitChars 10 digits 0 ≤ limit := and_iff_right ascii
    rw [if_pos ascii, Option.filter_some]
    simp only [within, decide_eq_true_eq]
  · rw [if_neg ascii, if_neg (fun within : Within limit digits => ascii within.1)]
    rfl

theorem within_nil (limit : Nat) : Within limit [] := ⟨rfl, Nat.zero_le _⟩

def Specifier.InRange (s : Specifier) : Prop :=
  Within 1000000 s.width ∧ Within 65535 (s.precision.getD [])

instance (s : Specifier) : Decidable s.InRange := inferInstanceAs (Decidable (_ ∧ _))

/-- What a specifier in range asks for. -/
def Specifier.format (s : Specifier) : Format where
  left := s.flags.contains '-'
  plus := s.flags.contains '+'
  zero := s.flags.contains '0'
  width := if s.width = [] then none else some (Nat.ofDigitChars 10 s.width 0)
  precision := s.precision.map fun digits => Nat.ofDigitChars 10 digits 0
  verb := s.verb

theorem Specifier.format?_eq (s : Specifier) :
    s.format? = if s.InRange then some s.format else none := by
  obtain ⟨flags, width, precision, verb⟩ := s
  have wide : bounded? maxWidth width = _ := bounded?_eq 1000000 width
  have precise (digits : List Char) : bounded? maxPrecision digits = _ := bounded?_eq 65535 digits
  by_cases inWidth : Within 1000000 width
  · rw [if_pos inWidth] at wide
    cases precision with
    | none =>
      rw [if_pos ⟨inWidth, within_nil _⟩]
      cases width with
      | nil => rfl
      | cons c others => simp [format?, format, wide]
    | some digits =>
      have same : InRange ⟨flags, width, some digits, verb⟩ ↔ Within 65535 digits :=
        and_iff_right inWidth
      by_cases inPrecision : Within 65535 digits
      · cases width with
        | nil => simp [format?, format, precise, same, inPrecision]
        | cons c others => simp [format?, format, wide, precise, same, inPrecision]
      · cases width with
        | nil => simp [format?, precise, same, inPrecision]
        | cons c others => simp [format?, wide, precise, same, inPrecision]
  · rw [if_neg inWidth] at wide
    rw [if_neg fun inRange => inWidth inRange.1]
    cases width with
    | nil => exact absurd (within_nil _) inWidth
    | cons c others => simp [format?, wide]

/-! ### Pieces -/

/-- Whether a value is needed for the piece. -/
def Piece.takes : Piece → Bool
  | .ordinary _ => false
  | .specifier s => decide s.InRange && s.verb != '%'

/-- How many values are needed. -/
def demand (parts : List Piece) : Nat := parts.countP Piece.takes

/-- What stands for a piece that no value is left for. -/
def Piece.unfilled : Piece → List Char
  | .ordinary c => [c]
  | .specifier s => if s.InRange ∧ s.verb = '%' then ['%'] else s.spelling

/-- What stands for a piece after others that need `taken` values. -/
def Piece.filled (values : List Value) (taken : Nat) : Piece → List Char
  | .ordinary c => [c]
  | .specifier s =>
    if ¬s.InRange then s.spelling
    else if s.verb = '%' then ['%']
    else
      match values[taken]? with
      | some value => s.format.render value
      | none => s.spelling

@[simp] theorem demand_nil : demand [] = 0 := rfl

theorem demand_cons (part : Piece) (parts : List Piece) :
    demand (part :: parts) = (if part.takes then 1 else 0) + demand parts := by
  rw [demand, List.countP_cons, Nat.add_comm, demand]

theorem Piece.filled_drop (values : List Value) (taken more : Nat) (part : Piece) :
    part.filled (values.drop taken) more = part.filled values (taken + more) := by
  cases part with
  | ordinary c => rfl
  | specifier s => simp only [filled, List.getElem?_drop]

theorem Piece.filled_take (values : List Value) (more : Nat) (part : Piece) :
    part.filled (values.take ((if part.takes then 1 else 0) + more)) 0 = part.filled values 0 := by
  cases part with
  | ordinary c => rfl
  | specifier s =>
    by_cases inRange : s.InRange
    · by_cases percent : s.verb = '%'
      · simp [filled, inRange, percent]
      · have first : (values.take (1 + more))[0]? = values[0]? := List.getElem?_take_of_lt (by omega)
        simp [filled, takes, inRange, percent, first]
    · simp [filled, inRange]

theorem Piece.filled_nil (taken : Nat) (part : Piece) : part.filled [] taken = part.unfilled := by
  cases part with
  | ordinary c => rfl
  | specifier s =>
    by_cases inRange : s.InRange
    · by_cases percent : s.verb = '%' <;> simp [filled, unfilled, inRange, percent]
    · simp [filled, unfilled, inRange]

/-- Every piece filled, with as many values taken as the pieces in front of it need. -/
def substitution (values : List Value) (parts : List Piece) : List Char :=
  (parts.mapIdx fun i part => part.filled values (demand (parts.take i))).flatten

theorem substitution_cons (values : List Value) (part : Piece) (parts : List Piece) :
    substitution values (part :: parts) =
      part.filled values 0 ++ substitution (values.drop (demand [part])) parts := by
  simp only [substitution, List.mapIdx_cons, List.flatten_cons, List.take_zero, List.take_succ_cons,
    demand_nil, demand_cons part (List.take _ _), demand_cons part [], Piece.filled_drop,
    Nat.add_zero]

/-! ### Filling -/

theorem fillPieces_cons (part : Piece) (parts : List Piece) (values : List Value) :
    fillPieces (part :: parts) values =
      part.filled values 0 ++ fillPieces parts (values.drop (demand [part])) := by
  rw [demand_cons]
  cases part with
  | ordinary c => rfl
  | specifier s =>
    by_cases inRange : s.InRange
    · have format : s.format? = some s.format := by rw [Specifier.format?_eq, if_pos inRange]
      by_cases percent : s.verb = '%'
      · have verb : s.format.verb = '%' := percent
        simp [fillPieces, Piece.filled, Piece.takes, format, verb, inRange, percent]
      · have verb : s.format.verb ≠ '%' := percent
        cases values with
        | nil => simp [fillPieces, Piece.filled, format, verb, inRange, percent]
        | cons value values =>
          simp [fillPieces, Piece.filled, Piece.takes, format, verb, inRange, percent]
    · have format : s.format? = none := by rw [Specifier.format?_eq, if_neg inRange]
      simp [fillPieces, Piece.filled, Piece.takes, format, inRange]

theorem fillPieces_eq (parts : List Piece) (values : List Value) :
    fillPieces parts values = substitution values parts := by
  induction parts generalizing values with
  | nil => rfl
  | cons part parts ih => rw [fillPieces_cons, substitution_cons, ih]

/-- What follows is filled with the values that are left. -/
theorem fillPieces_append (before after : List Piece) (values : List Value) :
    fillPieces (before ++ after) values =
      fillPieces before values ++ fillPieces after (values.drop (demand before)) := by
  induction before generalizing values with
  | nil => rfl
  | cons part before ih =>
    rw [List.cons_append, fillPieces_cons, fillPieces_cons, ih, List.append_assoc, List.drop_drop,
      demand_cons part [], demand_cons part before, demand_nil, Nat.add_zero]

theorem fillPieces_nil (parts : List Piece) :
    fillPieces parts [] = parts.flatMap Piece.unfilled := by
  induction parts with
  | nil => rfl
  | cons part parts ih =>
    rw [fillPieces_cons, Piece.filled_nil, List.drop_nil, ih, List.flatMap_cons]

/-- Values that no piece needs do not matter. -/
theorem fillPieces_take (parts : List Piece) (values : List Value) :
    fillPieces parts (values.take (demand parts)) = fillPieces parts values := by
  induction parts generalizing values with
  | nil => rfl
  | cons part parts ih =>
    rw [fillPieces_cons, fillPieces_cons, demand_cons part parts, demand_cons part [], demand_nil,
      Nat.add_zero, List.drop_take, Nat.add_sub_cancel_left, ih, Piece.filled_take]

/-- The pieces of a template are the leftmost matches of the pattern of specifiers with what lies
between them, and they are what a scan finds. The template is filled by what stands for each
of them: the specifiers that take a value take the values in order, those for which none is left
stand for themselves, and values that are left do not matter. -/
theorem fill_scan (template : String) (values : List Value) :
    Matched template.toList (pieces template.toList) ∧
      (∀ parts, Scan template.toList parts ↔ parts = pieces template.toList) ∧
      (pieces template.toList).flatMap Piece.spelling = template.toList ∧
      (fill template values).toList = substitution values (pieces template.toList) ∧
      (∀ before after, pieces template.toList = before ++ after → values.length ≤ demand before →
        (fill template values).toList =
          substitution values before ++ after.flatMap Piece.unfilled) ∧
      fill template (values.take (demand (pieces template.toList))) = fill template values := by
  have filled (values : List Value) :
      (fill template values).toList = fillPieces (pieces template.toList) values :=
    String.toList_ofList
  refine ⟨matched_pieces _, fun _ => scan_iff, pieces_spelling _, ?_, fun before after parts few => ?_,
    ?_⟩
  · rw [filled, fillPieces_eq]
  · rw [filled, parts, fillPieces_append, List.drop_eq_nil_of_le few, fillPieces_nil, fillPieces_eq]
  · rw [fill, fill, fillPieces_take]

theorem fill_scan_missing :
    pieces "%d%% %+5s".toList =
      [.specifier ⟨[], [], none, 'd'⟩, .specifier ⟨[], [], none, '%'⟩, .ordinary ' '] ++
        [.specifier ⟨['+'], ['5'], none, 's'⟩] ∧
      (fill "%d%% %+5s" [.integer 7]).toList = "7% %+5s".toList := by
  have parts : pieces "%d%% %+5s".toList =
      [.specifier ⟨[], [], none, 'd'⟩, .specifier ⟨[], [], none, '%'⟩, .ordinary ' '] ++
        [.specifier ⟨['+'], ['5'], none, 's'⟩] := by cbv
  refine ⟨parts, ?_⟩
  rw [(fill_scan "%d%% %+5s" [.integer 7]).2.2.2.2.1 _ _ parts (by decide)]
  rfl

end JsonQuery.Template
