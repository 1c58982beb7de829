import JsonQuery.Proofs.Query.Spelling

/-!
# String literals that cannot be read

Behind its opening quote a string literal consists of pieces up to the closing quote, or of pieces
up to a `Break`: the end of the query, or an escape sequence that stands for no character. Which
fault the lexer reports is determined by the break (`stringFrom_break`), and it reports no others
(`broken_of_stringFrom`).
-/

namespace JsonQuery.Query

/-- A hexadecimal digit. -/
def isHex (c : Char) : Bool := (Text.hexDigit? c).isSome

/-- What stands in a string literal where the next piece should begin, and what follows. -/
inductive Break where
  /-- the end of the query -/
  | ending
  /-- a backslash in front of the end of the query -/
  | backslash
  /-- a backslash and a character that makes no escape sequence with it -/
  | letter (c : Char) (more : List Char) (other : c ≠ 'u') (unlisted : ∀ char, (c, char) ∉ letters)
  /-- the four digits of a surrogate -/
  | surrogate (w x y z : Char) (more : List Char) (n : Nat)
    (digits : Text.hexValue? [w, x, y, z] = some n) (between : 0xd800 ≤ n ∧ n ≤ 0xdfff)
  /-- fewer than four digits, and then `c` -/
  | digit (good : List Char) (c : Char) (more : List Char) (few : good.length < 4)
    (hex : ∀ d ∈ good, isHex d = true) (other : isHex c = false)
  /-- fewer than four digits, and then the end of the query -/
  | cut (good : List Char) (few : good.length < 4) (hex : ∀ d ∈ good, isHex d = true)

namespace Break

def text : Break → List Char
  | ending => []
  | backslash => ['\\']
  | letter c more .. => '\\' :: c :: more
  | surrogate w x y z more .. => '\\' :: 'u' :: w :: x :: y :: z :: more
  | digit good c more .. => '\\' :: 'u' :: (good ++ c :: more)
  | cut good .. => '\\' :: 'u' :: good

/-- What the lexer reports of a break at `offset`. -/
def fault (offset : Nat) : Break → Fault
  | ending | backslash => .unterminated 0
  | letter c .. => .badEscape c offset
  | surrogate .. => .badEscape 'u' offset
  | digit good .. => .badEscape 'u' (offset + 2 + good.length)
  | cut .. => .unterminated offset

end Break

/-! ### Digits of an escape sequence -/

theorem exists_hexValue?_iff {digits : List Char} :
    (∃ n, Text.hexValue? digits = some n) ↔ ∀ d ∈ digits, isHex d = true := by
  induction digits using List.reverseRecOn with
  | nil => exact ⟨fun _ => List.forall_mem_nil _, fun _ => ⟨0, rfl⟩⟩
  | append_singleton digits c ih =>
    rw [Json.hexValue?_snoc, List.forall_mem_append, ← ih, List.forall_mem_singleton]
    unfold isHex
    cases Text.hexValue? digits <;> cases Text.hexDigit? c <;> simp

theorem codePoint?_eq_none_iff {w x y z : Char} :
    Text.codePoint? [w, x, y, z] = none ↔
      ∀ n, Text.hexValue? [w, x, y, z] = some n → 0xd800 ≤ n ∧ n ≤ 0xdfff := by
  rw [Option.eq_none_iff_forall_ne_some]
  constructor
  · intro none n value
    by_contra outside
    refine none (Char.ofNat n) ((codePoint?_eq_some_iff rfl).mpr ⟨n, value, ?_, rfl⟩)
    omega
  · intro between c some
    obtain ⟨n, value, scalar, -⟩ := (codePoint?_eq_some_iff rfl).mp some
    have := between n value
    omega

section Unicode

variable (offset : Nat) (decoded : List Char)

theorem unicodeFault_eq {text good : List Char} (run : (text.take 4).takeWhile isHex = good) :
    unicodeFault offset text =
      if good.length = 4 then ⟨.error (.badEscape 'u' offset), offset + 6⟩
      else if good.length < text.length then
        ⟨.error (.badEscape 'u' (offset + 2 + good.length)), offset + 2 + good.length⟩
      else ⟨.error (.unterminated offset), offset + 2 + good.length⟩ := by
  subst run
  rfl

theorem stringFrom_unicode {text : List Char}
    (none : ∀ w x y z more, text = w :: x :: y :: z :: more → Text.codePoint? [w, x, y, z] = none) :
    stringFrom offset decoded ('\\' :: 'u' :: text) = unicodeFault offset text := by
  by_cases four : ∃ w x y z more, text = w :: x :: y :: z :: more
  · obtain ⟨w, x, y, z, more, rfl⟩ := four
    rw [stringFrom, none w x y z more rfl]
  · rw [stringFrom]
    exact fun w x y z more same => four ⟨w, x, y, z, more, same⟩

/-- What stands behind a backslash and `u` is four digits of a character, or a break. -/
theorem exists_break_of_unicode {text : List Char}
    (none : ∀ w x y z more, text = w :: x :: y :: z :: more → Text.codePoint? [w, x, y, z] = none) :
    ∃ b : Break, '\\' :: 'u' :: text = b.text := by
  have split := text.takeWhile_append_dropWhile (p := isHex)
  have hex : ∀ d ∈ text.takeWhile isHex, isHex d = true := fun d mem => List.mem_takeWhile_imp mem
  generalize text.takeWhile isHex = run at split hex
  by_cases few : run.length < 4
  · cases tail : text.dropWhile isHex with
    | nil =>
      rw [tail, List.append_nil] at split
      subst split
      exact ⟨.cut run few hex, rfl⟩
    | cons c more =>
      have other : isHex c = false := eq_false_of_head?_dropWhile (by rw [tail]; rfl)
      rw [tail] at split
      subst split
      exact ⟨.digit run c more few hex other, rfl⟩
  · obtain ⟨w, x, y, z, others, rfl⟩ : ∃ w x y z others, run = w :: x :: y :: z :: others := by
      rcases run with _ | ⟨w, _ | ⟨x, _ | ⟨y, _ | ⟨z, others⟩⟩⟩⟩
      · exact absurd (show 0 < 4 by decide) few
      · exact absurd (show 1 < 4 by decide) few
      · exact absurd (show 2 < 4 by decide) few
      · exact absurd (show 3 < 4 by decide) few
      · exact ⟨w, x, y, z, others, rfl⟩
    have first : ∀ d ∈ [w, x, y, z], isHex d = true := fun d mem =>
      hex d (List.mem_append_left others mem)
    obtain ⟨n, value⟩ := exists_hexValue?_iff.mpr first
    have between := codePoint?_eq_none_iff.mp (none w x y z _ split.symm) n value
    exact ⟨.surrogate w x y z _ n value between, by rw [← split]; rfl⟩

end Unicode

/-! ### Breaks -/

/-- Digits in front of something else are no four digits of a character. -/
theorem codePoint?_of_few {good text : List Char} (few : good.length < 4)
    (ends : ∀ c ∈ text.head?, isHex c = false) {w x y z : Char} {more : List Char}
    (same : good ++ text = w :: x :: y :: z :: more) : Text.codePoint? [w, x, y, z] = none := by
  refine codePoint?_eq_none_iff.mpr fun n value => ?_
  have hex := exists_hexValue?_iff.mp ⟨n, value⟩
  have front : [w, x, y, z] = (good ++ text).take 4 := by rw [same]; rfl
  cases text with
  | nil =>
    rw [List.append_nil] at same
    subst same
    simp only [List.length_cons] at few
    omega
  | cons c rest =>
    obtain ⟨k, left⟩ : ∃ k, 4 - good.length = k + 1 := ⟨3 - good.length, by omega⟩
    rw [List.take_append, left, List.take_succ_cons] at front
    have mem : c ∈ [w, x, y, z] := front ▸ List.mem_append_right _ List.mem_cons_self
    have digit := hex c mem
    rw [ends c rfl] at digit
    cases digit

theorem Break.outcome_stringFrom (b : Break) (offset : Nat) (decoded : List Char) :
    (stringFrom offset decoded b.text).outcome = .error (b.fault offset) := by
  cases b with
  | ending => rfl
  | backslash => rfl
  | letter c more other unlisted =>
    have none : Text.escaped? c = none :=
      Option.eq_none_iff_forall_ne_some.mpr fun char some =>
        unlisted char (escaped?_eq_some_iff.mp some)
    rw [text, stringFrom, none]
    · rfl
    · exact fun _ _ _ _ _ same _ => other same
    · exact other
  | surrogate w x y z more n digits between =>
    have none : Text.codePoint? [w, x, y, z] = none := by
      refine codePoint?_eq_none_iff.mpr fun m value => ?_
      rw [digits] at value
      cases value
      exact between
    have hex := exists_hexValue?_iff.mp ⟨n, digits⟩
    have run : ((w :: x :: y :: z :: more).take 4).takeWhile isHex = [w, x, y, z] :=
      List.takeWhile_eq_self_iff.mpr hex
    rw [text, stringFrom, none]
    dsimp only
    rw [unicodeFault_eq offset run]
    rfl
  | digit good c more few hex other =>
    have ends : ∀ d ∈ (c :: more).head?, isHex d = false := fun d first =>
      Option.some.inj first ▸ other
    have run : ((good ++ c :: more).take 4).takeWhile isHex = good := by
      rw [List.take_append, List.take_of_length_le (by omega)]
      refine takeWhile_ends hex fun d first => ends d ?_
      rwa [List.head?_take, if_neg (by omega)] at first
    have longer : good.length < (good ++ c :: more).length := by
      rw [List.length_append, List.length_cons]
      omega
    rw [text, stringFrom_unicode _ _ fun _ _ _ _ _ same => codePoint?_of_few few ends same,
      unicodeFault_eq offset run, if_neg (by omega), if_pos longer]
    rfl
  | cut good few hex =>
    have run : (good.take 4).takeWhile isHex = good := by
      rw [List.take_of_length_le (by omega)]
      exact List.takeWhile_eq_self_iff.mpr hex
    have ends : ∀ d ∈ ([] : List Char).head?, isHex d = false := by
      intro d mem
      cases mem
    have whole := List.append_nil good
    rw [text, stringFrom_unicode _ _ fun _ _ _ _ _ same =>
      codePoint?_of_few few ends (whole.trans same), unicodeFault_eq offset run,
      if_neg (by omega), if_neg (Nat.lt_irrefl _)]
    rfl

/-- Pieces up to a break. -/
def Broken (text : List Char) : Prop :=
  ∃ (pieces : List Piece) (b : Break), text = pieces.flatMap Piece.text ++ b.text

theorem Broken.cons (piece : Piece) {rest : List Char} (h : Broken rest) :
    Broken (piece.text ++ rest) := by
  obtain ⟨pieces, b, rfl⟩ := h
  exact ⟨piece :: pieces, b, by rw [List.flatMap_cons, List.append_assoc]⟩

theorem Broken.here {text : List Char} (h : ∃ b : Break, text = b.text) : Broken text := by
  obtain ⟨b, rfl⟩ := h
  exact ⟨[], b, rfl⟩

/-- A string literal is broken where the lexer finds a fault. -/
theorem broken_of_stringFrom {offset : Nat} {decoded text : List Char} {fault : Fault}
    (h : (stringFrom offset decoded text).outcome = .error fault) : Broken text := by
  fun_induction stringFrom offset decoded text with
  | case1 => exact .here ⟨.ending, rfl⟩
  | case2 => cases h
  | case3 => exact .here ⟨.backslash, rfl⟩
  | case4 offset decoded w x y z rest char code ih =>
    obtain ⟨n, digits, scalar, -⟩ := (codePoint?_eq_some_iff rfl).mp code
    exact .cons (.code w x y z n digits scalar) (ih h)
  | case5 offset decoded w x y z rest none =>
    refine .here (exists_break_of_unicode ?_)
    intro _ _ _ _ _ same
    cases same
    exact none
  | case6 offset decoded few short =>
    refine .here (exists_break_of_unicode ?_)
    intro w x y z more same
    exact absurd same (short w x y z more)
  | case7 offset decoded c rest _ _ char escaped ih =>
    exact .cons (.letter c char (escaped?_eq_some_iff.mp escaped)) (ih h)
  | case8 offset decoded c rest _ other none =>
    refine .here ⟨.letter c rest other fun char listed => ?_, rfl⟩
    rw [escaped?_eq_some_iff.mpr listed] at none
    cases none
  | case9 offset decoded c rest quote backslash ih =>
    exact .cons (.plain c quote backslash) (ih h)

/-- The fault of a string literal is that of its break. -/
theorem outcome_of_pieces (pieces : List Piece) (b : Break) (offset : Nat) (decoded : List Char) :
    (stringFrom offset decoded (pieces.flatMap Piece.text ++ b.text)).outcome =
      .error (b.fault (offset + (pieces.flatMap Piece.text).length)) := by
  induction pieces generalizing offset decoded with
  | nil => exact b.outcome_stringFrom offset decoded
  | cons piece rest ih =>
    rw [List.flatMap_cons, List.append_assoc, stringFrom_piece, ih, List.length_append,
      Nat.add_assoc offset]

/-- What is wrong where no token can be read. -/
theorem fault_cases {c : Char} {text : List Char} {fault : Fault}
    (h : (lexeme c text).outcome = .error fault) :
    (c = '"' ∧ ∃ (pieces : List Piece) (b : Break), text = pieces.flatMap Piece.text ++ b.text ∧
        fault = b.fault (1 + (pieces.flatMap Piece.text).length)) ∨
      (fault = .unexpected c ∧ (lexeme c text).length = 0) ∨ ∃ digits, fault = .overflow digits := by
  unfold lexeme at h ⊢
  split at h
  · cases h
  split at h
  · cases h
  split at h
  case isTrue quote =>
    obtain ⟨pieces, b, rfl⟩ := broken_of_stringFrom h
    rw [outcome_of_pieces] at h
    exact Or.inl ⟨quote, pieces, b, rfl, (Except.error.inj h).symm⟩
  split at h
  · cases h
  split at h
  · unfold integer at h
    dsimp only at h
    split at h
    · cases h
    · cases h
      exact Or.inr (Or.inr ⟨_, rfl⟩)
  case isFalse opening closing quote alpha digit =>
    cases h
    rw [if_neg opening, if_neg closing, if_neg quote, if_neg alpha, if_neg digit]
    exact Or.inr (Or.inl ⟨rfl, rfl⟩)

end JsonQuery.Query
