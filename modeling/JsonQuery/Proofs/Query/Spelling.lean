import JsonQuery.Proofs.Query.Lexing

/-!
# Spellings

A `Spelling` is a text that stands for one token: a parenthesis, a word, digits or a string literal.
The lexer reads it as this token in front of any text that does not continue it (`lexeme_spelling`),
and it reads nothing else as a token (`spelling_of_lexeme`).
-/

namespace JsonQuery.Query

/-! ### String literals -/

/-- The letters that stand for a character after a backslash. -/
def letters : List (Char × Char) :=
  [('"', '"'), ('\\', '\\'), ('/', '/'), ('n', '\n'), ('t', '\t'), ('r', '\r'), ('b', '\x08'),
    ('f', '\x0c')]

theorem escaped?_eq_some_iff {letter c : Char} :
    Text.escaped? letter = some c ↔ (letter, c) ∈ letters := by
  constructor
  · intro h
    unfold Text.escaped? at h
    split at h <;> cases h <;> simp [letters]
  · intro mem
    simp only [letters, List.mem_cons, List.not_mem_nil, or_false, Prod.mk.injEq] at mem
    rcases mem with ⟨rfl, rfl⟩ | ⟨rfl, rfl⟩ | ⟨rfl, rfl⟩ | ⟨rfl, rfl⟩ | ⟨rfl, rfl⟩ | ⟨rfl, rfl⟩ |
      ⟨rfl, rfl⟩ | ⟨rfl, rfl⟩ <;> rfl

/-- One character of a string literal, as itself or as an escape sequence. -/
inductive Piece where
  | plain (c : Char) (quote : c ≠ '"') (backslash : c ≠ '\\')
  | letter (letter c : Char) (listed : (letter, c) ∈ letters)
  /-- four hexadecimal digits, but not those of a surrogate -/
  | code (w x y z : Char) (n : Nat) (digits : Text.hexValue? [w, x, y, z] = some n)
    (scalar : n < 0xd800 ∨ 0xdfff < n)

namespace Piece

def text : Piece → List Char
  | plain c .. => [c]
  | letter l .. => ['\\', l]
  | code w x y z .. => ['\\', 'u', w, x, y, z]

def char : Piece → Char
  | plain c .. => c
  | letter _ c _ => c
  | code _ _ _ _ n .. => Char.ofNat n

end Piece

theorem hexDigit?_lt {c : Char} {d : Nat} (h : Text.hexDigit? c = some d) : d < 16 := by
  have codes : '0'.toNat = 48 ∧ 'a'.toNat = 97 ∧ 'f'.toNat = 102 ∧ 'A'.toNat = 65 ∧
      'F'.toNat = 70 := ⟨rfl, rfl, rfl, rfl, rfl⟩
  unfold Text.hexDigit? at h
  split at h
  case isTrue digit =>
    have := toNat_of_isDigit digit
    cases h
    omega
  split at h
  case isTrue letter =>
    have last : c.toNat ≤ 'f'.toNat := letter.2
    cases h
    omega
  split at h
  case isTrue letter =>
    have last : c.toNat ≤ 'F'.toNat := letter.2
    cases h
    omega
  case isFalse => cases h

theorem hexValue?_lt {digits : List Char} {n : Nat} (h : Text.hexValue? digits = some n) :
    n < 16 ^ digits.length := by
  induction digits using List.reverseRecOn generalizing n with
  | nil =>
    cases h
    exact Nat.one_pos
  | append_singleton digits c ih =>
    rw [Json.hexValue?_snoc] at h
    obtain ⟨m, front, h⟩ := Option.bind_eq_some_iff.mp h
    obtain ⟨d, last, rfl⟩ := Option.map_eq_some_iff.mp h
    have := ih front
    have := hexDigit?_lt last
    rw [List.length_append, List.length_singleton, Nat.pow_succ]
    omega

theorem codePoint?_eq_some_iff {digits : List Char} (four : digits.length = 4) {c : Char} :
    Text.codePoint? digits = some c ↔
      ∃ n, Text.hexValue? digits = some n ∧ (n < 0xd800 ∨ 0xdfff < n) ∧ Char.ofNat n = c := by
  unfold Text.codePoint?
  cases value : Text.hexValue? digits with
  | none => exact ⟨nofun, fun ⟨n, same, _⟩ => nomatch same⟩
  | some n =>
    have small := hexValue?_lt value
    rw [four] at small
    have valid : n.isValidChar ↔ n < 0xd800 ∨ 0xdfff < n := by
      unfold Nat.isValidChar
      omega
    show (if n.isValidChar then some (Char.ofNat n) else none) = some c ↔ _
    by_cases scalar : n.isValidChar
    · rw [if_pos scalar, Option.some.injEq]
      exact ⟨fun same => ⟨n, rfl, valid.mp scalar, same⟩, fun ⟨m, same, _, char⟩ =>
        Option.some.inj same ▸ char⟩
    · rw [if_neg scalar]
      exact ⟨nofun, fun ⟨m, same, ok, _⟩ => absurd (valid.mpr (Option.some.inj same ▸ ok)) scalar⟩

theorem stringFrom_piece (piece : Piece) (offset : Nat) (decoded rest : List Char) :
    stringFrom offset decoded (piece.text ++ rest) =
      stringFrom (offset + piece.text.length) (piece.char :: decoded) rest := by
  cases piece with
  | plain c quote backslash => exact stringFrom_plain offset decoded rest quote backslash
  | letter l c listed =>
    have other : l ≠ 'u' := by
      rintro rfl
      revert listed
      simp [letters]
    exact stringFrom_letter offset decoded rest other (escaped?_eq_some_iff.mpr listed)
  | code w x y z n digits scalar =>
    have char := (codePoint?_eq_some_iff rfl).mpr ⟨n, digits, scalar, rfl⟩
    exact stringFrom_code offset decoded rest char

theorem stringFrom_pieces (pieces : List Piece) (offset : Nat) (decoded more : List Char) :
    stringFrom offset decoded (pieces.flatMap Piece.text ++ '"' :: more) =
      ⟨.ok (.literal (.string (String.ofList (decoded.reverse ++ pieces.map Piece.char)))),
        offset + (pieces.flatMap Piece.text).length + 1⟩ := by
  induction pieces generalizing offset decoded with
  | nil =>
    rw [List.map_nil, List.append_nil]
    rfl
  | cons piece rest ih =>
    rw [List.flatMap_cons, List.append_assoc, stringFrom_piece, ih, List.reverse_cons,
      List.append_assoc, List.length_append, Nat.add_assoc offset]
    rfl

/-- Pieces up to a quote, and then anything. -/
def Quoted (text : List Char) : Prop :=
  ∃ (pieces : List Piece) (more : List Char), text = pieces.flatMap Piece.text ++ '"' :: more

theorem Quoted.cons (piece : Piece) {rest : List Char} (h : Quoted rest) :
    Quoted (piece.text ++ rest) := by
  obtain ⟨pieces, more, rfl⟩ := h
  exact ⟨piece :: pieces, more, by rw [List.flatMap_cons, List.append_assoc]⟩

/-- A string literal that is read consists of pieces. -/
theorem quoted_of_stringFrom {offset : Nat} {decoded text : List Char} {token : Token}
    (h : (stringFrom offset decoded text).outcome = .ok token) : Quoted text := by
  fun_induction stringFrom offset decoded text with
  | case2 offset decoded rest => exact ⟨[], rest, rfl⟩
  | case4 offset decoded w x y z rest char code ih =>
    obtain ⟨n, digits, scalar, -⟩ := (codePoint?_eq_some_iff rfl).mp code
    exact .cons (.code w x y z n digits scalar) (ih h)
  | case5 => exact absurd h (outcome_unicodeFault _ _ _)
  | case6 => exact absurd h (outcome_unicodeFault _ _ _)
  | case7 offset decoded c rest _ _ char escaped ih =>
    exact .cons (.letter c char (escaped?_eq_some_iff.mp escaped)) (ih h)
  | case9 offset decoded c rest quote backslash ih =>
    exact .cons (.plain c quote backslash) (ih h)
  | _ => cases h

/-! ### Lexemes -/

/-- A text that stands for one token. -/
inductive Spelling where
  | lparen
  | rparen
  | word (first : Char) (rest : List Char) (alpha : first.isAlpha = true)
    (alphanum : ∀ c ∈ rest, c.isAlphanum = true)
  | digits (first : Char) (rest : List Char) (all : ∀ d ∈ first :: rest, d.isDigit = true)
    (small : Nat.ofDigitChars 10 (first :: rest) 0 ≤ 9223372036854775807)
  | string (pieces : List Piece)

namespace Spelling

def text : Spelling → List Char
  | lparen => ['(']
  | rparen => [')']
  | word first rest .. | digits first rest .. => first :: rest
  | string pieces => '"' :: (pieces.flatMap Piece.text ++ ['"'])

def token : Spelling → Token
  | lparen => .lparen
  | rparen => .rparen
  | word first rest .. => wordToken (String.ofList (first :: rest))
  | digits first rest .. =>
    .literal (.integer (Int64.ofNat (Nat.ofDigitChars 10 (first :: rest) 0)))
  | string pieces => .literal (.string (String.ofList (pieces.map Piece.char)))

/-- What follows does not continue the lexeme. -/
def Ends (more : List Char) : Spelling → Prop
  | word .. => ∀ c ∈ more.head?, c.isAlphanum = false
  | digits .. => ∀ c ∈ more.head?, c.isDigit = false
  | _ => True

theorem token_ne_eof (s : Spelling) : s.token ≠ .eof := by
  cases s with
  | word first rest => exact wordToken_ne_eof _
  | _ => exact nofun

end Spelling

/-- The lexer reads a lexeme that is not continued. -/
theorem lexeme_spelling {s : Spelling} {more : List Char} (ends : s.Ends more) :
    ∃ c rest, s.text = c :: rest ∧ Text.isBlank c = false ∧
      lexeme c (rest ++ more) = ⟨.ok s.token, s.text.length⟩ := by
  cases s with
  | lparen => exact ⟨'(', [], rfl, rfl, rfl⟩
  | rparen => exact ⟨')', [], rfl, rfl, rfl⟩
  | word first rest alpha alphanum =>
    have bounds := toNat_of_isAlpha alpha
    exact ⟨first, rest, rfl, isBlank_eq_false (by omega) (by omega),
      lexeme_word alpha alphanum ends⟩
  | digits first rest all small =>
    have bounds := toNat_of_isDigit (all first List.mem_cons_self)
    refine ⟨first, rest, rfl, isBlank_eq_false (by omega) (by omega), ?_⟩
    have bounded : Nat.ofDigitChars 10 (first :: rest) 0 < Value.integerBound := by
      rw [Value.integerBound]
      omega
    rw [lexeme_digits all ends, integer, if_pos bounded]
    rfl
  | string pieces =>
    refine ⟨'"', _, rfl, rfl, ?_⟩
    show stringFrom 1 [] _ = _
    rw [List.append_assoc, List.singleton_append, stringFrom_pieces, List.reverse_nil,
      List.nil_append, Spelling.text, List.length_cons, List.length_append, Nat.add_comm 1]
    rfl

theorem small_of_integer {digits : List Char} {token : Token}
    (h : (integer digits).outcome = .ok token) :
    Nat.ofDigitChars 10 digits 0 ≤ 9223372036854775807 := by
  unfold integer at h
  dsimp only at h
  split at h
  case isTrue small => exact Nat.le_of_lt_succ small
  case isFalse => cases h

theorem ends_dropWhile (p : Char → Bool) (text : List Char) :
    ∀ c ∈ (text.dropWhile p).head?, p c = false := by
  intro c first
  have stopped := text.head?_dropWhile_not p
  rw [Option.mem_def.mp first] at stopped
  exact stopped

/-- The lexer reads nothing but lexemes. -/
theorem spelling_of_lexeme {c : Char} {text : List Char} {token : Token}
    (h : (lexeme c text).outcome = .ok token) :
    ∃ (s : Spelling) (more : List Char), c :: text = s.text ++ more ∧ s.Ends more := by
  unfold lexeme at h
  split at h
  case isTrue same => exact ⟨.lparen, text, by rw [same]; rfl, trivial⟩
  split at h
  case isTrue same => exact ⟨.rparen, text, by rw [same]; rfl, trivial⟩
  split at h
  case isTrue same =>
    obtain ⟨pieces, more, rfl⟩ := quoted_of_stringFrom h
    refine ⟨.string pieces, more, ?_, trivial⟩
    rw [same, Spelling.text, List.cons_append, List.append_assoc]
    rfl
  split at h
  case isTrue alpha =>
    refine ⟨.word c (text.takeWhile Char.isAlphanum) alpha fun d mem => List.mem_takeWhile_imp mem,
      text.dropWhile Char.isAlphanum, ?_, ?_⟩
    · rw [Spelling.text, List.cons_append, List.takeWhile_append_dropWhile]
    · exact ends_dropWhile Char.isAlphanum text
  split at h
  case isTrue digit =>
    have all : ∀ d ∈ c :: text.takeWhile Char.isDigit, d.isDigit = true :=
      List.forall_mem_cons.mpr ⟨digit, fun d mem => List.mem_takeWhile_imp mem⟩
    refine ⟨.digits c (text.takeWhile Char.isDigit) all (small_of_integer h),
      text.dropWhile Char.isDigit, ?_, ?_⟩
    · rw [Spelling.text, List.cons_append, List.takeWhile_append_dropWhile]
    · exact ends_dropWhile Char.isDigit text
  case isFalse => cases h

end JsonQuery.Query
