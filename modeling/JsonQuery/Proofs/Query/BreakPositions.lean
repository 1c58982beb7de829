import JsonQuery.Proofs.Query.Cursor
import JsonQuery.Proofs.Query.Failures
import JsonQuery.Proofs.Query.Layout

/-!
# Where a string literal is broken

The lexer blames the opening quote for a string literal that does not end, and a backslash for an
escape sequence that stands for no character. Escape sequences of fewer than four digits are the
exception: it blames the backslash if the query ends in one, and otherwise what stands in the place
of the digit (`tokenize_broken`).
-/

namespace JsonQuery.Query

/-- The error is about a string literal. -/
def LexError.breaksString : LexError → Bool
  | .unterminatedString _ | .invalidEscape .. => true
  | _ => false

/-- The error stands where its message says that it is: a literal starts at its opening quote, and
an escape sequence at its backslash. -/
def LexError.PointsAt (opening escape : Position) : LexError → Prop
  | .unterminatedString position => position = opening
  | .invalidEscape _ position => position = escape
  | _ => False

namespace Break

/-- An escape sequence of fewer than four digits. -/
def isShort : Break → Bool
  | digit .. | cut .. => true
  | _ => false

/-- The error of a literal from `opening` on that is broken at `here`. -/
def error (opening here : Position) : Break → LexError
  | ending | backslash => .unterminatedString opening
  | letter c .. => .invalidEscape c here
  | surrogate .. => .invalidEscape 'u' here
  | digit good .. => .invalidEscape 'u' (here.advance ('\\' :: 'u' :: good))
  | cut .. => .unterminatedString here

/-- A fault behind these characters of a literal has the position behind them. -/
theorem locate_fault (b : Break) (start : Position) (front : List Char) :
    (b.fault front.length).locate start (front ++ b.text) = b.error start (start.advance front) := by
  cases b with
  | ending | backslash => rfl
  | letter | surrogate | cut =>
    rw [fault, Fault.locate, List.take_left]
    rfl
  | digit good c more =>
    have behind : (front ++ ('\\' :: 'u' :: (good ++ c :: more))).take
        (front.length + 2 + good.length) = front ++ '\\' :: 'u' :: good := by
      have whole : front ++ ('\\' :: 'u' :: (good ++ c :: more)) =
          (front ++ '\\' :: 'u' :: good) ++ c :: more := by
        rw [List.append_assoc, List.cons_append, List.cons_append]
      rw [whole]
      apply List.take_left'
      rw [List.length_append, List.length_cons, List.length_cons]
      omega
    rw [fault, Fault.locate, text, behind, Position.advance_append]
    rfl

theorem breaksString_error (b : Break) (opening here : Position) :
    (b.error opening here).breaksString = true := by
  cases b <;> rfl

theorem pointsAt_iff (b : Break) {opening here : Position} (apart : opening.Before here) :
    (b.error opening here).PointsAt opening here ↔ b.isShort = false := by
  have irrefl (p : Position) : ¬p.Before p := by
    unfold Position.Before
    omega
  cases b with
  | ending | backslash | letter | surrogate => exact iff_of_true rfl rfl
  | digit good =>
    refine iff_of_false (fun same => ?_) nofun
    have further := here.before_advance (List.cons_ne_nil '\\' ('u' :: good))
    rw [show here.advance ('\\' :: 'u' :: good) = here from same] at further
    exact irrefl here further
  | cut =>
    refine iff_of_false (fun same => ?_) nofun
    rw [show here = opening from same] at apart
    exact irrefl opening apart

end Break

/-! ### Reading up to a broken literal -/

namespace Lexer

theorem next_broken (pieces : List Piece) (b : Break) (p s : Position) :
    (Lexer.next ⟨'"' :: (pieces.flatMap Piece.text ++ b.text), p, s⟩).1 =
      .error (b.error p (p.advance ('"' :: pieces.flatMap Piece.text))) := by
  have found := outcome_of_pieces pieces b 1 []
  have located := b.locate_fault p ('"' :: pieces.flatMap Piece.text)
  rw [List.length_cons, Nat.add_comm] at located
  show (lexeme '"' (pieces.flatMap Piece.text ++ b.text)).outcome.mapError _ = _
  show (stringFrom 1 [] (pieces.flatMap Piece.text ++ b.text)).outcome.mapError _ = _
  rw [found, ← located]
  rfl

end Lexer

theorem Tokens.toList_append_failed (located : List (Token × Position)) (error : LexError) :
    (append located (.failed error)).toList = .error error := by
  induction located with
  | nil => rfl
  | cons _ _ ih => exact map_eq_error_iff.mpr ih

theorem tokenize_of_broken {query : String} {l : Layout} {pieces : List Piece} {b : Break}
    (whole : query.toList = l.text ++ '"' :: (pieces.flatMap Piece.text ++ b.text)) :
    tokenize query =
      .error (b.error (.locate l.text) (.locate (l.text ++ '"' :: pieces.flatMap Piece.text))) := by
  have free (s : Spelling) := s.ends_quote (pieces.flatMap Piece.text ++ b.text)
  obtain ⟨located, s', read, -⟩ := tokens_layout l free .first .first
  have failed := Lexer.next_broken pieces b (Position.first.advance l.text) s'
  rw [Lexer.tokens_of_error (Prod.ext failed rfl)] at read
  rw [← Position.advance_first, ← Position.advance_first, Position.advance_append]
  refine map_eq_error_iff.mpr ?_
  rw [Tokens.ofString, Lexer.ofString, whole, read]
  exact Tokens.toList_append_failed located _

theorem before_quote (l : Layout) (pieces : List Piece) :
    (Position.locate l.text).Before (.locate (l.text ++ '"' :: pieces.flatMap Piece.text)) := by
  rw [← Position.advance_first, ← Position.advance_first, Position.advance_append]
  exact Position.before_advance _ (List.cons_ne_nil _ _)

/-! ### Every error of a string literal -/

theorem broken_of_next {l after : Lexer} {error : LexError} (h : l.next = (.error error, after))
    (breaks : error.breaksString = true) :
    ∃ (w : List Char) (pieces : List Piece) (b : Break), (∀ c ∈ w, Text.isBlank c = true) ∧
      l.rest = w ++ '"' :: (pieces.flatMap Piece.text ++ b.text) := by
  have split := l.rest.takeWhile_append_dropWhile (p := Text.isBlank)
  have failed : l.next.1 = .error error := congrArg Prod.fst h
  unfold Lexer.next at failed
  dsimp only at failed
  split at failed
  case h_1 => cases failed
  case h_2 c text some =>
    cases outcome : (lexeme c text).outcome with
    | ok token =>
      rw [outcome] at failed
      cases failed
    | error fault =>
      rw [outcome] at failed
      cases failed
      rcases fault_cases outcome with ⟨rfl, pieces, b, rfl, -⟩ | ⟨rfl, -⟩ | ⟨digits, rfl⟩
      · rw [some] at split
        exact ⟨_, pieces, b, fun c mem => List.mem_takeWhile_imp mem, split.symm⟩
      · cases breaks
      · cases breaks

theorem broken_of_tokens {l : Lexer} {error : LexError} (h : l.tokens.toList = .error error)
    (breaks : error.breaksString = true) :
    ∃ (layout : Layout) (pieces : List Piece) (b : Break),
      l.rest = layout.text ++ '"' :: (pieces.flatMap Piece.text ++ b.text) := by
  fun_induction Lexer.tokens l with
  | case1 l error' after step =>
    cases h
    obtain ⟨w, pieces, b, blank, rest⟩ := broken_of_next step breaks
    refine ⟨.blanks w blank, pieces, b, ?_⟩
    rw [rest, Layout.text_blanks]
  | case2 => cases h
  | case3 l token after step ne ih =>
    obtain ⟨w, blank, ⟨-, eof⟩ | ⟨s, rest, ends, rfl⟩⟩ := Lexer.next_eq_ok_spelling step
    · exact absurd eof ne
    · obtain ⟨layout, pieces, b, same⟩ := ih (map_eq_error_iff.mp h)
      rw [same] at ends rest
      have ends := Spelling.ends_of_append ends
      refine ⟨.cons w blank s layout ends, pieces, b, ?_⟩
      rw [layout.text_cons w blank s ends, rest]
      simp only [List.append_assoc]

/-- The tokens of a query end in an error about a string literal if and only if it consists of
lexemes, an opening quote, pieces and a break. The error is the one of the break, and it stands where
its message says unless the break is an escape sequence of fewer than four digits. -/
theorem tokenize_broken (query : String) (error : LexError) :
    tokenize query = .error error ∧ error.breaksString = true ↔
      ∃ (l : Layout) (pieces : List Piece) (b : Break) (opening here : Position),
        query.toList = l.text ++ '"' :: (pieces.flatMap Piece.text ++ b.text) ∧
        opening = .locate l.text ∧ here = .locate (l.text ++ '"' :: pieces.flatMap Piece.text) ∧
        error = b.error opening here ∧ (error.PointsAt opening here ↔ b.isShort = false) := by
  constructor
  · rintro ⟨failed, breaks⟩
    obtain ⟨l, pieces, b, whole⟩ := broken_of_tokens (map_eq_error_iff.mp failed) breaks
    have read := tokenize_of_broken whole
    rw [failed] at read
    obtain rfl := Except.error.inj read
    exact ⟨l, pieces, b, _, _, whole, rfl, rfl, rfl, b.pointsAt_iff (before_quote l pieces)⟩
  · rintro ⟨l, pieces, b, opening, here, whole, rfl, rfl, rfl, -⟩
    exact ⟨tokenize_of_broken whole, b.breaksString_error _ _⟩

theorem tokenize_broken_letter :
    tokenize "\n\"a\\x" = .error (.invalidEscape 'x' ⟨2, 3⟩) := by
  have blank : ∀ c ∈ ['\n'], Text.isBlank c = true := List.forall_mem_singleton.mpr rfl
  have unlisted (char : Char) : ('x', char) ∉ letters := by simp [letters]
  refine ((tokenize_broken _ _).mpr ⟨.blanks ['\n'] blank, [.plain 'a' (by decide) (by decide)],
    .letter 'x' [] (by decide) unlisted, ⟨2, 1⟩, ⟨2, 3⟩, rfl, rfl, rfl, rfl, ?_⟩).1
  exact iff_of_true rfl rfl

/-- The query `"\u12` is blamed at its backslash for a literal that starts at the first character, and
`"\ug"` at the `g` for an escape sequence that starts at the second. -/
theorem tokenize_short_escapes :
    (tokenize "\"\\u12" = .error (.unterminatedString ⟨1, 2⟩) ∧
      ¬(LexError.unterminatedString ⟨1, 2⟩).PointsAt (.locate []) (.locate ['"'])) ∧
    tokenize "\"\\ug\"" = .error (.invalidEscape 'u' ⟨1, 4⟩) ∧
      ¬(LexError.invalidEscape 'u' ⟨1, 4⟩).PointsAt (.locate []) (.locate ['"']) := by
  refine ⟨⟨by cbv, ?_⟩, by cbv, ?_⟩
  · unfold LexError.PointsAt
    decide
  · unfold LexError.PointsAt
    decide

end JsonQuery.Query
