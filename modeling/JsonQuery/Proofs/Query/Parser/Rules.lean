import JsonQuery.Proofs.Query.Lexing
import JsonQuery.Query.Parser

/-!
# Rules of the parser

`Rule` lists what a parser may make of the token it looks at, a case for each kind of token and
place. `step_iff` says that it does just that, and a call repeats it (`read_of_finished`,
`read_of_reading`).
-/

namespace JsonQuery.Query.Parser

/-- What comes of the token, given the lists that are open. -/
inductive Rule (p : Parser) : List OpenList → Progress → Prop where
  | literal {opened : List OpenList} {value : Literal} (token : p.token = .literal value) :
      Rule p opened (p.taken.behind opened (complete opened (.literal value)))
  | tooDeep {opened : List OpenList} (token : p.token = .lparen) (full : maxNesting ≤ p.depth) :
      Rule p opened (p.taken.fail opened (.tooDeep p.position))
  | enter {opened : List OpenList} (token : p.token = .lparen) (room : p.depth < maxNesting) :
      Rule p opened (p.taken.enter.behind opened (.reading (⟨p.position, none, []⟩ :: opened)))
  | head {start : Position} {outer : List OpenList} {name : String}
      (token : p.token = .identifier name) :
      Rule p (⟨start, none, []⟩ :: outer)
        (p.behind (⟨start, none, []⟩ :: outer) (.reading (⟨start, some name, []⟩ :: outer)))
  | bare {opened : List OpenList} {name : String} (token : p.token = .identifier name)
      (elsewhere : ∀ start outer, opened ≠ ⟨start, none, []⟩ :: outer) :
      Rule p opened (p.taken.fail opened (.bareIdentifier name p.position))
  | unfit {l : OpenList} {outer : List OpenList} {error : ParseError} (token : p.token = .rparen)
      (close : l.close = .error error) :
      Rule p (l :: outer) (p.behind (l :: outer) fun after => after.fail (l :: outer) error)
  | close {l : OpenList} {outer : List OpenList} {node : Node} (token : p.token = .rparen)
      (close : l.close = .ok node) :
      Rule p (l :: outer) (p.behind (l :: outer) fun after => complete outer node (after.leave 1))
  | unclosed {l : OpenList} {outer : List OpenList} (token : p.token = .eof) :
      Rule p (l :: outer) (p.fail (l :: outer) (.unclosedList l.start))
  | unexpected (token : p.token = .rparen ∨ p.token = .eof) :
      Rule p [] (.finished (.error (.unexpectedToken .expression p.token p.position)) p.taken)

theorem rule_step (p : Parser) (opened : List OpenList) : Rule p opened (p.step opened) := by
  unfold step
  split
  case h_1 token => exact .literal token
  case h_2 token =>
    split
    case isTrue full => exact .tooDeep token full
    case isFalse room => exact .enter token (Nat.lt_of_not_le room)
  case h_3 token => exact .head token
  case h_4 token elsewhere => exact .bare token elsewhere
  case h_5 l outer token =>
    cases close : l.close with
    | error error => exact .unfit token close
    | ok node => exact .close token close
  case h_6 token => exact .unclosed token
  case h_7 notLiteral notLparen notIdentifier =>
    refine .unexpected ?_
    cases token : p.token with
    | literal value => exact absurd token (notLiteral value)
    | lparen => exact absurd token notLparen
    | identifier name => exact absurd token (notIdentifier name)
    | rparen => exact .inl rfl
    | eof => exact .inr rfl

theorem step_of_rule {p : Parser} {opened : List OpenList} {progress : Progress}
    (rule : Rule p opened progress) : p.step opened = progress := by
  cases rule with
  | literal token => simp only [step, token]
  | tooDeep token full => simp only [step, token, full, if_true]
  | enter token room => simp only [step, token, Nat.not_le_of_lt room, if_false]
  | head token => simp only [step, token]
  | bare token elsewhere =>
    unfold step
    split <;> simp_all
  | unfit token close => simp only [step, token, close]
  | close token close => simp only [step, token, close]
  | unclosed token => simp only [step, token]
  | unexpected token =>
    rcases token with token | token <;> simp only [step, token]

theorem step_iff {p : Parser} {opened : List OpenList} {progress : Progress} :
    p.step opened = progress ↔ Rule p opened progress :=
  ⟨fun same => same ▸ rule_step p opened, step_of_rule⟩

/-! ### The lexer -/

def Progress.after : Progress → Parser
  | .finished _ after => after
  | .reading _ after => after

theorem lexer_behind (p : Parser) (opened : List OpenList) {next : Parser → Progress}
    (keeps : ∀ after, (next after).after.lexer = after.lexer) :
    (p.behind opened next).after.lexer = p.lexer.next.2 := by
  unfold behind advance
  rcases p.lexer.next with ⟨error | token, lexer⟩
  · rfl
  · exact keeps _

theorem lexer_complete (opened : List OpenList) (node : Node) (p : Parser) :
    (complete opened node p).after.lexer = p.lexer := by
  cases opened <;> rfl

/-- At most one token is read. -/
theorem lexer_of_rule {p : Parser} {opened : List OpenList} {progress : Progress}
    (rule : Rule p opened progress) :
    progress.after.lexer = p.lexer ∨ progress.after.lexer = p.lexer.next.2 := by
  cases rule with
  | literal => exact .inr (lexer_behind p.taken opened (lexer_complete opened _))
  | enter => exact .inr (lexer_behind p.taken.enter opened fun _ => rfl)
  | head => exact .inr (lexer_behind p _ fun _ => rfl)
  | unfit => exact .inr (lexer_behind p _ fun _ => rfl)
  | close => exact .inr (lexer_behind p _ fun after => lexer_complete _ _ (after.leave 1))
  | _ => exact .inl rfl

/-- What every token leaves true of the lexer is true of it after each step. -/
theorem keeps_step {P : Lexer → Prop} (keeps : ∀ l : Lexer, P l → P l.next.2) {p : Parser}
    {opened : List OpenList} {progress : Progress} (h : p.step opened = progress)
    (holds : P p.lexer) : P progress.after.lexer := by
  rcases lexer_of_rule (step_iff.mp h) with same | next
  · rw [same]
    exact holds
  · rw [next]
    exact keeps _ holds

/-! ### Calls -/

theorem read_of_finished {opened : List OpenList} {p after : Parser}
    {outcome : Except ParseError Node} (h : p.step opened = .finished outcome after) :
    p.read opened = (outcome, after) := by
  rw [read]
  split
  case h_1 same => rw [h] at same; cases same; rfl
  case h_2 same => rw [h] at same; cases same

theorem read_of_reading {opened inner : List OpenList} {p after : Parser}
    (h : p.step opened = .reading inner after) : p.read opened = after.read inner := by
  rw [read]
  split
  case h_1 same => rw [h] at same; cases same
  case h_2 same => rw [h] at same; cases same; rfl

end JsonQuery.Query.Parser
