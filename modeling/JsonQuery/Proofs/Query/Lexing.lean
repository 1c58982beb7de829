import JsonQuery.Proofs.Json.Literals
import JsonQuery.Proofs.Json.Numerals
import JsonQuery.Proofs.Query.Tokens
import JsonQuery.Proofs.Text.Classes

/-!
# Reading tokens that were written

A string, a word or a number is read as the token it was written for, provided that a blank, a
closing parenthesis or the end of the query follows (`Stops`). `Reads` is the statement for a text
of several tokens, and it can be composed.
-/

namespace JsonQuery.Query

open Json (escapeChar codeDigits)

/-- What may follow an expression inside the text of a tree. -/
def Stops (more : List Char) : Prop := ∀ c ∈ more.head?, c = ' ' ∨ c = ')'

theorem Stops.ends {p : Char → Bool} (blank : p ' ' = false) (closing : p ')' = false)
    {more : List Char} (stops : Stops more) : ∀ c ∈ more.head?, p c = false := by
  intro c first
  rcases stops c first with rfl | rfl
  · exact blank
  · exact closing

/-! ### Strings -/

theorem codePoint?_codeDigits {c : Char} (small : c.toNat < 16 ^ 4) :
    Text.codePoint? (codeDigits c.toNat) = some c := by
  have value := (Json.codeDigits_spec small).2.2
  have valid : c.toNat.isValidChar := c.valid
  rw [Text.codePoint?, value]
  show (if c.toNat.isValidChar then some (Char.ofNat c.toNat) else none) = some c
  rw [if_pos valid, Char.ofNat_toNat]

section Strings

variable (offset : Nat) (decoded rest : List Char)

theorem stringFrom_plain {c : Char} (quote : c ≠ '"') (backslash : c ≠ '\\') :
    stringFrom offset decoded (c :: rest) = stringFrom (offset + 1) (c :: decoded) rest := by
  rw [stringFrom]
  · exact fun h => quote h
  · exact fun h => backslash h

theorem stringFrom_letter {letter c : Char} (other : letter ≠ 'u')
    (escaped : Text.escaped? letter = some c) :
    stringFrom offset decoded ('\\' :: letter :: rest) =
      stringFrom (offset + 2) (c :: decoded) rest := by
  rw [stringFrom, escaped]
  · exact fun _ _ _ _ _ same _ => other same
  · exact other

theorem stringFrom_code {w x y z c : Char} (code : Text.codePoint? [w, x, y, z] = some c) :
    stringFrom offset decoded ('\\' :: 'u' :: w :: x :: y :: z :: rest) =
      stringFrom (offset + 6) (c :: decoded) rest := by
  rw [stringFrom, code]

/-- A character is read as it was written. -/
theorem stringFrom_escapeChar (c : Char) :
    stringFrom offset decoded (escapeChar c ++ rest) =
      stringFrom (offset + (escapeChar c).length) (c :: decoded) rest := by
  unfold escapeChar
  split
  · exact stringFrom_letter _ _ _ (by decide) rfl
  · exact stringFrom_letter _ _ _ (by decide) rfl
  · exact stringFrom_letter _ _ _ (by decide) rfl
  · exact stringFrom_letter _ _ _ (by decide) rfl
  · exact stringFrom_letter _ _ _ (by decide) rfl
  case h_6 quote backslash _ _ _ =>
    split
    case isTrue control =>
      have small : c.toNat < 16 ^ 4 := by
        simp only [Json.isControl, Bool.or_eq_true, Bool.and_eq_true, decide_eq_true_eq] at control
        omega
      have code := codePoint?_codeDigits small
      show stringFrom offset decoded ('\\' :: 'u' :: (codeDigits c.toNat ++ rest)) =
        stringFrom (offset + ('\\' :: 'u' :: codeDigits c.toNat).length) (c :: decoded) rest
      obtain ⟨w, x, y, z, digits⟩ := Json.codeDigits_four small
      rw [digits] at code ⊢
      exact stringFrom_code _ _ _ code
    case isFalse => exact stringFrom_plain _ _ _ quote backslash

end Strings

theorem stringFrom_escaped (cs : List Char) (offset : Nat) (decoded more : List Char) :
    stringFrom offset decoded (cs.flatMap escapeChar ++ '"' :: more) =
      ⟨.ok (.literal (.string (String.ofList (decoded.reverse ++ cs)))),
        offset + (cs.flatMap escapeChar).length + 1⟩ := by
  induction cs generalizing offset decoded with
  | nil =>
    rw [List.append_nil]
    rfl
  | cons c cs ih =>
    rw [List.flatMap_cons, List.append_assoc, stringFrom_escapeChar, ih, List.reverse_cons,
      List.append_assoc, List.length_append, Nat.add_assoc offset]
    rfl

/-! ### One token -/

theorem lexeme_quote (s : String) (more : List Char) :
    lexeme '"' (s.toList.flatMap escapeChar ++ ['"'] ++ more) =
      ⟨.ok (.literal (.string s)), (Json.quote s).length⟩ := by
  show stringFrom 1 [] _ = _
  rw [List.append_assoc, List.singleton_append, stringFrom_escaped, List.reverse_nil,
    List.nil_append, String.ofList_toList, Json.quote, List.length_cons, List.length_append]
  congr 1
  rw [List.length_singleton]
  omega

theorem lexeme_word {c : Char} {rest more : List Char} (alpha : c.isAlpha = true)
    (alphanum : ∀ d ∈ rest, d.isAlphanum = true) (ends : ∀ d ∈ more.head?, d.isAlphanum = false) :
    lexeme c (rest ++ more) =
      ⟨.ok (wordToken (String.ofList (c :: rest))), (c :: rest).length⟩ := by
  have ne {d : Char} (h : d.isAlpha = false) : c ≠ d := by
    rintro rfl
    exact absurd alpha (by simp [h])
  unfold lexeme
  rw [if_neg (ne rfl), if_neg (ne rfl), if_neg (ne rfl), if_pos alpha, takeWhile_ends alphanum ends]

theorem wordToken_ne_eof (word : String) : wordToken word ≠ .eof := by
  unfold wordToken
  split
  · exact nofun
  split
  · exact nofun
  split <;> exact nofun

theorem literal_ne_eof (l : Literal) : Token.literal l ≠ .eof := by simp

theorem lexeme_digits {c : Char} {rest more : List Char} (all : ∀ d ∈ c :: rest, d.isDigit = true)
    (ends : ∀ d ∈ more.head?, d.isDigit = false) :
    lexeme c (rest ++ more) = integer (c :: rest) := by
  obtain ⟨digit, others⟩ := List.forall_mem_cons.mp all
  have ne {d : Char} (h : d.isDigit = false) : c ≠ d := by
    rintro rfl
    exact absurd digit (by simp [h])
  unfold lexeme
  rw [if_neg (ne rfl), if_neg (ne rfl), if_neg (ne rfl), if_neg (not_isAlpha_of_isDigit digit),
    if_pos digit, takeWhile_ends others ends]

/-! ### Reading on -/

namespace Lexer

section Tokens

variable {l after : Lexer}

theorem tokens_of_error {error : LexError} (h : l.next = (.error error, after)) :
    l.tokens = .failed error := by
  rw [Lexer.tokens]
  split
  case h_1 failed => rw [h] at failed; cases failed; rfl
  case h_2 found => rw [h] at found; cases found

theorem tokens_of_eof (h : l.next = (.ok .eof, after)) : l.tokens = .finished after.tokenStart := by
  rw [Lexer.tokens]
  split
  case h_1 failed => rw [h] at failed; cases failed
  case h_2 found =>
    rw [h] at found
    cases found
    exact dif_pos rfl

theorem tokens_of_next {token : Token} (h : l.next = (.ok token, after)) (ne : token ≠ .eof) :
    l.tokens = .cons token after.tokenStart after.tokens := by
  rw [Lexer.tokens]
  split
  case h_1 failed => rw [h] at failed; cases failed
  case h_2 found =>
    rw [h] at found
    cases found
    exact dif_neg ne

theorem tokens_congr {l' : Lexer} (h : l.next = l'.next) : l.tokens = l'.tokens := by
  rcases step : l.next with ⟨error | token, after⟩
  · rw [tokens_of_error step, tokens_of_error (h ▸ step)]
  · by_cases eof : token = .eof
    · subst eof
      rw [tokens_of_eof step, tokens_of_eof (h ▸ step)]
    · have step' : l'.next = (.ok token, after) := h ▸ step
      rw [tokens_of_next step eof, tokens_of_next step' eof]

end Tokens

theorem next_cons {c : Char} (solid : Text.isBlank c = false) {text : List Char} {token : Token}
    {n : Nat} (found : lexeme c text = ⟨.ok token, n⟩) (p s : Position) :
    Lexer.next ⟨c :: text, p, s⟩ =
      (.ok token, ⟨(c :: text).drop n, p.advance ((c :: text).take n), p⟩) := by
  unfold Lexer.next
  simp only [List.takeWhile_cons, List.dropWhile_cons, solid, Bool.false_eq_true, if_false, found]
  rfl

theorem next_blank {c : Char} (blank : Text.isBlank c = true) (text : List Char)
    (p s : Position) : Lexer.next ⟨c :: text, p, s⟩ = Lexer.next ⟨text, p.after c, s⟩ := by
  unfold Lexer.next
  simp only [List.takeWhile_cons, List.dropWhile_cons, blank, if_true]
  rfl

theorem next_blanks {w : List Char} (blank : ∀ c ∈ w, Text.isBlank c = true) (text : List Char)
    (p s : Position) : Lexer.next ⟨w ++ text, p, s⟩ = Lexer.next ⟨text, p.advance w, s⟩ := by
  induction w generalizing p with
  | nil => rfl
  | cons c w ih =>
    obtain ⟨here, there⟩ := List.forall_mem_cons.mp blank
    exact (next_blank here (w ++ text) p s).trans (ih there (p.after c))

/-- A request passes over blanks, and then over some of what stands behind them. -/
theorem exists_read (l : Lexer) :
    ∃ read, l.rest.dropWhile Text.isBlank = read ++ l.next.2.rest ∧
      l.next.2.tokenStart = l.position.advance (l.rest.takeWhile Text.isBlank) ∧
      l.next.2.position = l.next.2.tokenStart.advance read ∧
      ∀ token, l.next.1 = .ok token → token ≠ .eof → read ≠ [] := by
  unfold next
  dsimp only
  split
  case h_1 none =>
    refine ⟨[], none, rfl, rfl, fun token eof ne => ?_⟩
    cases eof
    exact absurd rfl ne
  case h_2 c rest some =>
    refine ⟨(c :: rest).take (lexeme c rest).length, ?_, rfl, rfl, fun token found ne => ?_⟩
    · rw [some, List.take_append_drop]
    · cases outcome : (lexeme c rest).outcome with
      | error fault =>
        rw [outcome] at found
        cases found
      | ok other =>
        have taken := length_pos_of_lexeme outcome
        intro empty
        rcases List.take_eq_nil_iff.mp empty with zero | nil
        · omega
        · cases nil

end Lexer

/-- In front of `more` the text is read as these tokens, wherever it stands. -/
def Reads (text : List Char) (words : List Token) (more : List Char) : Prop :=
  ∀ p s, ∃ located p' s', Lexer.tokens ⟨text ++ more, p, s⟩ =
    .append located (Lexer.tokens ⟨more, p', s'⟩) ∧ located.map Prod.fst = words

namespace Reads

variable {a b more : List Char} {words others : List Token}

theorem nil (more : List Char) : Reads [] [] more := fun p s => ⟨[], p, s, rfl, rfl⟩

theorem append (ha : Reads a words (b ++ more)) (hb : Reads b others more) :
    Reads (a ++ b) (words ++ others) more := by
  intro p s
  obtain ⟨first, p₁, s₁, read, rfl⟩ := ha p s
  obtain ⟨second, p₂, s₂, read', rfl⟩ := hb p₁ s₁
  refine ⟨first ++ second, p₂, s₂, ?_, List.map_append⟩
  rw [List.append_assoc, read, read', Tokens.append_append]

theorem blanks {w : List Char} (blanks : ∀ c ∈ w, Text.isBlank c = true) (h : Reads a words more) :
    Reads (w ++ a) words more := by
  intro p s
  rw [List.append_assoc, Lexer.tokens_congr (Lexer.next_blanks blanks (a ++ more) p s)]
  exact h _ _

theorem blank {c : Char} (blank : Text.isBlank c = true) (h : Reads a words more) :
    Reads (c :: a) words more :=
  h.blanks (List.forall_mem_singleton.mpr blank)

theorem token {c : Char} {rest : List Char} {token : Token} (solid : Text.isBlank c = false)
    (found : lexeme c (rest ++ more) = ⟨.ok token, (c :: rest).length⟩) (ne : token ≠ .eof) :
    Reads (c :: rest) [token] more := by
  intro p s
  have next := Lexer.next_cons solid found p s
  rw [← List.cons_append, List.drop_left, List.take_left] at next
  exact ⟨[(token, p)], _, _, Lexer.tokens_of_next next ne, rfl⟩

end Reads

theorem tokenize_of_reads {text : List Char} {words : List Token} (h : Reads text words []) :
    tokenize (String.ofList text) = .ok (words ++ [.eof]) := by
  obtain ⟨located, p, s, all, rfl⟩ := h .first .first
  have last : Lexer.tokens ⟨[], p, s⟩ = .finished p :=
    Lexer.tokens_of_eof (show Lexer.next ⟨[], p, s⟩ = (.ok .eof, ⟨[], p, p⟩) from rfl)
  refine tokenize_eq_ok_iff.mpr ⟨located, p, ?_, rfl⟩
  rw [Tokens.ofString, Lexer.ofString, String.toList_ofList, ← last, ← all, List.append_nil]

theorem reads_lparen (more : List Char) : Reads ['('] [.lparen] more := .token rfl rfl nofun

theorem reads_rparen (more : List Char) : Reads [')'] [.rparen] more := .token rfl rfl nofun

section Pieces

variable {more : List Char} (stops : Stops more)

include stops

theorem reads_word {word : String} {c : Char} {rest : List Char} (same : word.toList = c :: rest)
    (alpha : c.isAlpha = true) (alphanum : ∀ d ∈ rest, d.isAlphanum = true) :
    Reads word.toList [wordToken word] more := by
  have found := lexeme_word alpha alphanum (stops.ends rfl rfl)
  rw [← same, String.ofList_toList] at found
  have bounds := toNat_of_isAlpha alpha
  rw [same] at found ⊢
  exact .token (isBlank_eq_false (by omega) (by omega)) found (wordToken_ne_eof word)

theorem reads_identifier {name : String} (h : IsIdentifier name) :
    Reads name.toList [.identifier name] more := by
  obtain ⟨c, rest, same, alpha, alphanum⟩ := h.letters
  have word : wordToken name = .identifier name := by
    rw [wordToken, if_neg h.notTrue, if_neg h.notFalse, if_neg h.notNull]
  rw [← word]
  exact reads_word stops same alpha alphanum

theorem reads_digits {n : Nat} (small : n < Value.integerBound) :
    Reads (digits n) [.literal (.integer (Int64.ofNat n))] more := by
  have nonempty : digits n ≠ [] := Nat.toDigits_ne_nil
  obtain ⟨c, rest, same⟩ := List.exists_cons_of_ne_nil nonempty
  have all : ∀ d ∈ c :: rest, d.isDigit = true := fun d mem =>
    Json.Numeral.isDigit_toDigits (same ▸ mem : d ∈ digits n)
  have bounds := toNat_of_isDigit (all c List.mem_cons_self)
  have value : Nat.ofDigitChars 10 (c :: rest) 0 = n := by
    rw [← same]
    exact Nat.ofDigitChars_ten_toDigits
  have found := lexeme_digits all (stops.ends rfl rfl)
  rw [integer, value, if_pos small] at found
  rw [same]
  exact .token (isBlank_eq_false (by omega) (by omega)) found (literal_ne_eof _)

theorem reads_literal {l : Literal} (proper : (Token.literal l).Proper) :
    Reads (Json.compact.write 0 l.value) [.literal l] more := by
  cases l with
  | null =>
    exact reads_word stops (show "null".toList = ['n', 'u', 'l', 'l'] from rfl) rfl (by simp)
  | boolean b =>
    cases b with
    | false =>
      exact reads_word stops (show "false".toList = ['f', 'a', 'l', 's', 'e'] from rfl) rfl
        (by simp)
    | true =>
      exact reads_word stops (show "true".toList = ['t', 'r', 'u', 'e'] from rfl) rfl (by simp)
  | integer n =>
    have natural : 0 ≤ n.toInt := Int64.le_iff_toInt_le.mp proper
    have high := Int64.toInt_lt n
    obtain ⟨m, whole⟩ := Int.eq_ofNat_of_zero_le natural
    have small : m < Value.integerBound := by
      rw [Value.integerBound]
      omega
    have same : Int64.ofNat m = n := by
      rw [← Int64.toInt_inj, Int64.toInt_ofNat_of_lt small, whole]
    have text : Json.compact.write 0 (Value.integer n) = digits m := by
      show integerText n.toInt = digits m
      rw [whole]
      rfl
    have read := reads_digits stops small
    rw [same] at read
    rw [Literal.value, text]
    exact read
  | string s => exact .token rfl (lexeme_quote s more) (literal_ne_eof _)

end Pieces

end JsonQuery.Query
