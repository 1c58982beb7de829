import JsonQuery.Query.Token
import JsonQuery.Text.Characters

/-!
# From text to tokens

A `Lexer` stands somewhere in a query and reads the next token on request; after an error it
stays where the error showed. `Lexer.tokens` reads all of them with their positions.
-/

namespace JsonQuery.Query

inductive LexError where
  | unexpectedChar (found : Char) (position : Position)
  | invalidEscape (found : Char) (position : Position)
  | unterminatedString (position : Position)
  | integerOverflow (literal : String) (position : Position)
  deriving DecidableEq, Repr

def LexError.message : LexError → String
  | .unexpectedChar found position =>
    "unexpected character '" ++ found.toString ++ "' at " ++ position.message
  | .invalidEscape found position =>
    "invalid escape sequence '\\" ++ found.toString ++ "' at " ++ position.message
  | .unterminatedString position => "unterminated string starting at " ++ position.message
  | .integerOverflow literal position =>
    "integer literal " ++ literal ++ " out of range at " ++ position.message

/-- The error with its place, for a lexeme that starts `text` at `start`. -/
def Fault.locate (start : Position) (text : List Char) : Fault → LexError
  | .unexpected found => .unexpectedChar found start
  | .badEscape found offset => .invalidEscape found (start.advance (text.take offset))
  | .unterminated offset => .unterminatedString (start.advance (text.take offset))
  | .overflow digits => .integerOverflow (String.ofList digits) start

/-- The text that is left, where it starts, and where the latest token started. -/
structure Lexer where
  rest : List Char
  position : Position
  tokenStart : Position
  deriving DecidableEq, Repr

namespace Lexer

def ofString (query : String) : Lexer := ⟨query.toList, .first, .first⟩

def next (l : Lexer) : Except LexError Token × Lexer :=
  let start := l.position.advance (l.rest.takeWhile Text.isBlank)
  match l.rest.dropWhile Text.isBlank with
  | [] => (.ok .eof, ⟨[], start, start⟩)
  | c :: text =>
    let found := lexeme c text
    (found.outcome.mapError (Fault.locate start (c :: text)),
      ⟨(c :: text).drop found.length, start.advance ((c :: text).take found.length), start⟩)

theorem length_lt_of_next {l after : Lexer} {token : Token} (h : l.next = (.ok token, after))
    (ne : token ≠ .eof) : after.rest.length < l.rest.length := by
  have shorter := (List.dropWhile_suffix (l := l.rest) Text.isBlank).length_le
  unfold next at h
  dsimp only at h
  split at h
  · cases h; exact absurd rfl ne
  · rename_i c text eq
    obtain ⟨found, rfl⟩ := Prod.mk.inj h
    have ok : (lexeme c text).outcome = .ok token := by
      cases outcome : (lexeme c text).outcome with
      | error fault => rw [outcome] at found; cases found
      | ok other => rw [outcome] at found; cases found; rfl
    have taken := length_pos_of_lexeme ok
    rw [eq] at shorter
    simp only [List.length_drop, List.length_cons] at shorter ⊢
    omega

end Lexer

/-- What is left to read of a query: tokens with their positions, up to the end of the query or
to the first error. -/
inductive Tokens where
  | finished (position : Position)
  | failed (error : LexError)
  | cons (token : Token) (position : Position) (rest : Tokens)
  deriving DecidableEq, Repr

def Lexer.tokens (l : Lexer) : Tokens :=
  match _h : l.next with
  | (.error error, _) => .failed error
  | (.ok token, after) =>
    if _ne : token = .eof then .finished after.tokenStart
    else .cons token after.tokenStart after.tokens
termination_by l.rest.length
decreasing_by exact Lexer.length_lt_of_next _h _ne

namespace Tokens

def ofString (query : String) : Tokens := (Lexer.ofString query).tokens

/-- The tokens with their positions, the end of the input among them. -/
def toList : Tokens → Except LexError (List (Token × Position))
  | .finished position => .ok [(.eof, position)]
  | .failed error => .error error
  | .cons token position rest => rest.toList.map ((token, position) :: ·)

def failure? : Tokens → Option LexError
  | .failed error => some error
  | _ => none

end Tokens

/-- The tokens of a query, the end of the input among them. -/
def tokenize (query : String) : Except LexError (List Token) :=
  (Tokens.ofString query).toList.map (·.map Prod.fst)

end JsonQuery.Query
