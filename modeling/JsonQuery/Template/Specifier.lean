import JsonQuery.Text.Characters

/-!
# Templates

A template is ordinary text with specifiers such as `%-8.3f`. `pieces` splits it from left to
right; a `%` that starts no specifier is ordinary text. `pieces_spelling` says that the pieces
spell the template, so nothing is lost.
-/

namespace JsonQuery.Template

/-- A specifier as it is written, without the `%` in front. -/
structure Specifier where
  flags : List Char
  width : List Char
  precision : Option (List Char)
  verb : Char
  deriving DecidableEq, Repr

def isFlag (c : Char) : Bool := c = '-' || c = '+' || c = ' ' || c = '0' || c = '#'

def isVerb (c : Char) : Bool := c.isAlpha || c = '%'

def pointed : Option (List Char) → List Char
  | some digits => '.' :: digits
  | none => []

namespace Specifier

def body (s : Specifier) : List Char := s.flags ++ s.width ++ pointed s.precision ++ [s.verb]

def spelling (s : Specifier) : List Char := '%' :: s.body

end Specifier

/-- A point with digits after it. -/
def precision? (text : List Char) : Option (List Char) × List Char :=
  match text with
  | '.' :: rest =>
    if (rest.takeWhile Text.isDecimalDigit).isEmpty then (none, text)
    else (some (rest.takeWhile Text.isDecimalDigit), rest.dropWhile Text.isDecimalDigit)
  | _ => (none, text)

/-- The specifier that starts in front of `text`, and the text after it. -/
def specifier? (text : List Char) : Option (Specifier × List Char) :=
  let afterFlags := text.dropWhile isFlag
  let afterWidth := afterFlags.dropWhile Text.isDecimalDigit
  match precision? afterWidth with
  | (precision, verb :: rest) =>
    if isVerb verb then
      some (⟨text.takeWhile isFlag, afterFlags.takeWhile Text.isDecimalDigit, precision, verb⟩,
        rest)
    else none
  | (_, []) => none

theorem eq_of_precision? {text rest : List Char} {precision : Option (List Char)}
    (h : precision? text = (precision, rest)) :
    text = pointed precision ++ rest := by
  unfold precision? at h
  split at h
  · split at h
    · cases h; rfl
    · cases h; simp [pointed, List.takeWhile_append_dropWhile]
  · cases h; rfl

theorem eq_of_specifier? {text rest : List Char} {s : Specifier}
    (h : specifier? text = some (s, rest)) : text = s.body ++ rest := by
  unfold specifier? at h
  dsimp only at h
  split at h
  case h_1 precision verb after heq =>
    split at h
    · cases h
      have parts := eq_of_precision? heq
      have flags : text.takeWhile isFlag ++ text.dropWhile isFlag = text :=
        List.takeWhile_append_dropWhile
      have width : (text.dropWhile isFlag).takeWhile Text.isDecimalDigit ++
          (text.dropWhile isFlag).dropWhile Text.isDecimalDigit = text.dropWhile isFlag :=
        List.takeWhile_append_dropWhile
      rw [parts] at width
      simp only [Specifier.body, List.append_assoc, List.singleton_append]
      rw [width, flags]
    · cases h
  case h_2 => cases h

theorem length_lt_of_specifier? {text rest : List Char} {s : Specifier}
    (h : specifier? text = some (s, rest)) : rest.length < text.length := by
  rw [eq_of_specifier? h]
  simp [Specifier.body]
  omega

inductive Piece where
  | ordinary (c : Char)
  | specifier (s : Specifier)
  deriving DecidableEq, Repr

def Piece.spelling : Piece → List Char
  | .ordinary c => [c]
  | .specifier s => s.spelling

def pieces : List Char → List Piece
  | [] => []
  | c :: text =>
    if c = '%' then
      match _h : specifier? text with
      | some (s, rest) => .specifier s :: pieces rest
      | none => .ordinary c :: pieces text
    else .ordinary c :: pieces text
termination_by template => template.length
decreasing_by
  · have := length_lt_of_specifier? _h; simp; omega
  · simp
  · simp

theorem pieces_spelling (template : List Char) :
    (pieces template).flatMap Piece.spelling = template := by
  fun_induction pieces template with
  | case1 => rfl
  | case2 text s rest h ih =>
    simp [Piece.spelling, Specifier.spelling, ih, eq_of_specifier? h]
  | case3 text _ ih => simp [Piece.spelling, ih]
  | case4 c text _ ih => simp [Piece.spelling, ih]

end JsonQuery.Template
