import JsonQuery.Proofs.Query.Parser.Rules

/-!
# Queries inside other texts

`Position.shift` says where a position of a text is if the text does not start at the first
position. The text behind `start` is read as if it stood alone: tokens and trees are the same, and
all positions are shifted (`Parser.read_shift`).
-/

namespace JsonQuery.Query

namespace Position

/-- Counted from one, as all positions in a text are. -/
def Proper (p : Position) : Prop := 0 < p.line ∧ 0 < p.column

/-- Where `p` is if the text starts at `start`. Only the first line does not start a line. -/
def shift (p start : Position) : Position :=
  if p.line = 1 then ⟨start.line, start.column + p.column - 1⟩
  else ⟨start.line + p.line - 1, p.column⟩

theorem Proper.after {p : Position} (proper : p.Proper) (c : Char) : (p.after c).Proper := by
  obtain ⟨line, column⟩ := proper
  unfold Position.after
  split
  · exact ⟨Nat.succ_pos _, Nat.one_pos⟩
  · exact ⟨line, Nat.succ_pos _⟩

theorem Proper.advance {p : Position} (proper : p.Proper) (text : List Char) :
    (p.advance text).Proper := by
  induction text generalizing p with
  | nil => exact proper
  | cons c text ih => exact ih (proper.after c)

theorem shift_after {p : Position} (proper : p.Proper) (start : Position) (c : Char) :
    (p.after c).shift start = (p.shift start).after c := by
  obtain ⟨line, column⟩ := proper
  unfold after shift
  by_cases feed : c = '\n'
  · by_cases same : p.line = 1
    · simp [feed, same]
    · have : p.line ≠ 0 := by omega
      simp only [feed, same, if_true, if_false]
      rw [if_neg (by omega)]
      simp only [mk.injEq, and_true]
      omega
  · by_cases same : p.line = 1
    · simp only [feed, same, if_true, if_false, mk.injEq, true_and]
      omega
    · simp only [feed, same, if_false]

theorem shift_advance {p : Position} (proper : p.Proper) (start : Position) (text : List Char) :
    (p.advance text).shift start = (p.shift start).advance text := by
  induction text generalizing p with
  | nil => rfl
  | cons c text ih =>
    show ((p.after c).advance text).shift start = ((p.shift start).after c).advance text
    rw [ih (proper.after c), shift_after proper]

end Position

/-! ### Tokens -/

def LexError.shift (start : Position) : LexError → LexError
  | .unexpectedChar found position => .unexpectedChar found (position.shift start)
  | .invalidEscape found position => .invalidEscape found (position.shift start)
  | .unterminatedString position => .unterminatedString (position.shift start)
  | .integerOverflow literal position => .integerOverflow literal (position.shift start)

theorem Fault.locate_shift {p : Position} (proper : p.Proper) (start : Position) (text : List Char)
    (fault : Fault) : fault.locate (p.shift start) text = (fault.locate p text).shift start := by
  cases fault with
  | unexpected found => rfl
  | badEscape found offset =>
    rw [locate, locate, LexError.shift, Position.shift_advance proper]
  | unterminated offset => rw [locate, locate, LexError.shift, Position.shift_advance proper]
  | overflow digits => rfl

def Lexer.shift (l : Lexer) (start : Position) : Lexer :=
  ⟨l.rest, l.position.shift start, l.tokenStart.shift start⟩

theorem mapError_mapError {ε ε' ε'' α : Type} (f : ε → ε') (g : ε' → ε'') (outcome : Except ε α) :
    (outcome.mapError f).mapError g = outcome.mapError (g ∘ f) := by
  cases outcome <;> rfl

theorem Lexer.next_shift {l : Lexer} (proper : l.position.Proper) (start : Position) :
    (l.shift start).next =
      (l.next.1.mapError (LexError.shift start), l.next.2.shift start) := by
  have blanks := Position.shift_advance proper start (l.rest.takeWhile Text.isBlank)
  have proper' := proper.advance (l.rest.takeWhile Text.isBlank)
  unfold next shift
  dsimp only
  rw [← blanks]
  split
  · rfl
  · rename_i c text same
    dsimp only
    have located := funext (Fault.locate_shift proper' start (c :: text))
    rw [located, ← Position.shift_advance proper', mapError_mapError]
    rfl

theorem Lexer.proper_next {l : Lexer} (proper : l.position.Proper) :
    l.next.2.position.Proper := by
  unfold next
  dsimp only
  split
  · exact proper.advance _
  · exact (proper.advance _).advance _

/-! ### Open lists -/

def ParseError.shift (start : Position) : ParseError → ParseError
  | .lex error => .lex (error.shift start)
  | .unexpectedToken wanted found position => .unexpectedToken wanted found (position.shift start)
  | .emptyList position => .emptyList (position.shift start)
  | .unclosedList position => .unclosedList (position.shift start)
  | .bareIdentifier name position => .bareIdentifier name (position.shift start)
  | .headlessList length position => .headlessList length (position.shift start)
  | .tooDeep position => .tooDeep (position.shift start)

def OpenList.shift (start : Position) (l : OpenList) : OpenList :=
  { l with start := l.start.shift start }

theorem OpenList.close_shift (start : Position) (l : OpenList) :
    (l.shift start).close = l.close.mapError (ParseError.shift start) := by
  unfold close
  dsimp only [shift]
  split <;> rfl

/-! ### The parser -/

namespace Parser

def shift (p : Parser) (start : Position) : Parser :=
  { p with lexer := p.lexer.shift start, position := p.position.shift start }

def Progress.shift (start : Position) : Progress → Progress
  | .finished outcome after =>
    .finished (outcome.mapError (ParseError.shift start)) (after.shift start)
  | .reading opened after => .reading (opened.map (OpenList.shift start)) (after.shift start)

section Shift

variable {p : Parser} {opened : List OpenList} (start : Position)

theorem advance_shift (proper : p.lexer.position.Proper) :
    (p.shift start).advance =
      (p.advance.1.map (LexError.shift start), p.advance.2.shift start) := by
  have next : (p.shift start).lexer.next = _ := Lexer.next_shift proper start
  unfold advance
  rw [next]
  rcases p.lexer.next with ⟨error | token, after⟩ <;> rfl

theorem fail_shift (p : Parser) (opened : List OpenList) (error : ParseError) :
    (p.shift start).fail (opened.map (OpenList.shift start)) (error.shift start) =
      (p.fail opened error).shift start := by
  rw [fail, fail, List.length_map]
  rfl

theorem complete_shift (opened : List OpenList) (node : Node) (p : Parser) :
    complete (opened.map (OpenList.shift start)) node (p.shift start) =
      (complete opened node p).shift start := by
  cases opened <;> rfl

theorem behind_shift (p : Parser) (opened : List OpenList) (proper : p.lexer.position.Proper) {next next' : Parser → Progress}
    (same : ∀ after, next' (after.shift start) = (next after).shift start) :
    (p.shift start).behind (opened.map (OpenList.shift start)) next' =
      (p.behind opened next).shift start := by
  unfold behind
  rw [advance_shift start proper]
  rcases p.advance with ⟨_ | error, after⟩
  · exact same after
  · exact fail_shift start after opened (.lex error)

theorem step_shift (proper : p.lexer.position.Proper) (opened : List OpenList) :
    (p.shift start).step (opened.map (OpenList.shift start)) = (p.step opened).shift start := by
  have rule := p.rule_step opened
  generalize p.step opened = progress at rule
  have same : (p.shift start).token = p.token := rfl
  cases rule with
  | literal token =>
    rw [step_of_rule (.literal (same.trans token))]
    exact behind_shift start p.taken opened proper (complete_shift start opened _)
  | tooDeep token full =>
    rw [step_of_rule (.tooDeep (same.trans token) full)]
    exact fail_shift start p.taken opened (.tooDeep p.position)
  | enter token room =>
    rw [step_of_rule (.enter (same.trans token) room)]
    exact behind_shift start p.taken.enter opened proper fun after => rfl
  | head token =>
    rw [List.map_cons]
    refine (step_of_rule (.head (same.trans token))).trans ?_
    exact behind_shift start p (_ :: _) proper fun after => rfl
  | @bare _ name token elsewhere =>
    rw [step_of_rule (.bare (same.trans token) ?_)]
    · exact fail_shift start p.taken opened (.bareIdentifier name p.position)
    · intro first outer shifted
      obtain ⟨l, others, rfl, head, -⟩ := List.map_eq_cons_iff.mp shifted
      cases l with
      | mk start head elements =>
        cases head
        exact elsewhere _ _ rfl
  | @unfit l outer error token close =>
    have close' : (l.shift start).close = .error (error.shift start) := by
      rw [OpenList.close_shift, close]
      rfl
    rw [List.map_cons, step_of_rule (.unfit (same.trans token) close')]
    exact behind_shift start p (l :: outer) proper fun after =>
      fail_shift start after (l :: outer) error
  | @close l outer node token close =>
    have close' : (l.shift start).close = .ok node := by
      rw [OpenList.close_shift, close]
      rfl
    rw [List.map_cons, step_of_rule (.close (same.trans token) close')]
    exact behind_shift start p (l :: outer) proper fun after =>
      complete_shift start outer node (after.leave 1)
  | @unclosed l outer token =>
    rw [List.map_cons, step_of_rule (.unclosed (same.trans token))]
    exact fail_shift start p (l :: outer) (.unclosedList l.start)
  | unexpected token => exact step_of_rule (.unexpected token)

theorem read_shift (proper : p.lexer.position.Proper) (opened : List OpenList) :
    (p.shift start).read (opened.map (OpenList.shift start)) =
      ((p.read opened).1.mapError (ParseError.shift start), (p.read opened).2.shift start) := by
  fun_induction read opened p with
  | case1 opened p outcome after step =>
    exact read_of_finished (by rw [step_shift start proper, step]; rfl)
  | case2 opened p inner after step ih =>
    rw [read_of_reading (by rw [step_shift start proper, step]; rfl)]
    exact ih (keeps_step (P := fun l => l.position.Proper) (fun _ => Lexer.proper_next) step proper)

theorem query_shift (proper : p.lexer.position.Proper) :
    (p.shift start).query =
      (p.query.1.mapError (ParseError.shift start), p.query.2.shift start) := by
  have read : (p.shift start).expression = _ := read_shift start proper []
  unfold query
  rw [read, expression]
  rcases p.read [] with ⟨error | node, after⟩
  · rfl
  · dsimp only [Except.mapError]
    by_cases eof : after.token = .eof
    · rw [if_pos eof]
      exact if_pos eof
    · rw [if_neg eof]
      exact if_neg eof

theorem run_shift (proper : p.lexer.position.Proper) (call : Call) :
    call.run (p.shift start) =
      ((call.run p).1.mapError (ParseError.shift start), (call.run p).2.shift start) := by
  cases call with
  | expression => exact read_shift start proper []
  | query => exact query_shift start proper

end Shift

end Parser

end JsonQuery.Query
