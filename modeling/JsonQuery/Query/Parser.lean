import JsonQuery.Query.Node

/-!
# A parser that is called again

A `Parser` looks at one token, and its lexer stands behind this token. A call takes tokens until an
expression is complete or an error shows, and the next call goes on from there.
-/

namespace JsonQuery.Query

structure Parser where
  lexer : Lexer
  token : Token
  position : Position
  /-- The number of open lists. -/
  depth : Nat
  deriving DecidableEq, Repr

namespace Parser

/-- Looks at the first token, if it can be read. -/
def ofLexer (lexer : Lexer) : Except ParseError Parser :=
  match lexer.next with
  | (.ok token, lexer) => .ok ⟨lexer, token, lexer.tokenStart, 0⟩
  | (.error error, _) => .error (.lex error)

/-- Looks at the next token, or keeps the present one if the next cannot be read. -/
def advance (p : Parser) : Option LexError × Parser :=
  match p.lexer.next with
  | (.ok token, lexer) => (none, { p with lexer, token, position := lexer.tokenStart })
  | (.error error, lexer) => (some error, { p with lexer })

/-- Without the token, as if the input were at its end. -/
def taken (p : Parser) : Parser := { p with token := .eof }

/-- Inside one more list. -/
def enter (p : Parser) : Parser := { p with depth := p.depth + 1 }

/-- Outside of so many lists. -/
def leave (p : Parser) (lists : Nat) : Parser := { p with depth := p.depth - lists }

/-- What becomes of an expression and the open lists around it. -/
inductive Progress where
  | finished (outcome : Except ParseError Node) (after : Parser)
  | reading (opened : List OpenList) (after : Parser)

/-- An error leaves all open lists. -/
def fail (opened : List OpenList) (error : ParseError) (p : Parser) : Progress :=
  .finished (.error error) (p.leave opened.length)

/-- Goes on behind the token. If the next one cannot be read, the lists that have been open so far
are left. -/
def behind (opened : List OpenList) (p : Parser) (next : Parser → Progress) : Progress :=
  match p.advance with
  | (some error, after) => after.fail opened (.lex error)
  | (none, after) => next after

/-- An expression is complete: an element of the innermost list, or what was to be read. -/
def complete (opened : List OpenList) (node : Node) (p : Parser) : Progress :=
  match opened with
  | [] => .finished (.ok node) p
  | l :: outer => .reading (l.push node :: outer) p

/-- What comes of the present token. -/
def step (opened : List OpenList) (p : Parser) : Progress :=
  match p.token, opened with
  | .literal value, _ => p.taken.behind opened (complete opened (.literal value))
  | .lparen, _ =>
    if maxNesting ≤ p.depth then p.taken.fail opened (.tooDeep p.position)
    else p.taken.enter.behind opened (.reading (⟨p.position, none, []⟩ :: opened))
  | .identifier name, ⟨start, none, []⟩ :: outer =>
    p.behind (⟨start, none, []⟩ :: outer) (.reading (⟨start, some name, []⟩ :: outer))
  | .identifier name, _ => p.taken.fail opened (.bareIdentifier name p.position)
  | .rparen, l :: outer =>
    p.behind (l :: outer) fun after =>
      match l.close with
      | .error error => after.fail (l :: outer) error
      | .ok node => complete outer node (after.leave 1)
  | .eof, l :: outer => p.fail (l :: outer) (.unclosedList l.start)
  | token, [] => .finished (.error (.unexpectedToken .expression token p.position)) p.taken

/-- What is left to read. -/
def size (p : Parser) : Nat := if p.token = .eof then 0 else p.lexer.rest.length + 1

theorem size_lt_of_advance {p after : Parser} (q : Parser) (same : q.lexer = p.lexer)
    (ne : p.token ≠ .eof) (h : q.advance = (none, after)) : after.size < p.size := by
  have whole : p.size = p.lexer.rest.length + 1 := if_neg ne
  rw [whole, ← same]
  unfold advance at h
  split at h
  case h_1 token lexer step =>
    cases h
    unfold size
    split
    case isTrue => exact Nat.succ_pos _
    case isFalse ne => exact Nat.succ_lt_succ (Lexer.length_lt_of_next step ne)
  case h_2 => cases h

theorem exists_of_behind {opened inner : List OpenList} {p after : Parser}
    {next : Parser → Progress} (h : p.behind opened next = .reading inner after) :
    ∃ ahead, p.advance = (none, ahead) ∧ next ahead = .reading inner after := by
  unfold behind at h
  split at h
  · cases h
  · exact ⟨_, ‹_›, h⟩

theorem eq_of_complete {opened inner : List OpenList} {node : Node} {p after : Parser}
    (h : complete opened node p = .reading inner after) : after = p := by
  cases opened with
  | nil => cases h
  | cons l outer => cases h; rfl

theorem size_lt_of_step {opened inner : List OpenList} {p after : Parser}
    (h : p.step opened = .reading inner after) : after.size < p.size := by
  unfold step at h
  split at h
  case h_1 token =>
    obtain ⟨ahead, advanced, next⟩ := exists_of_behind h
    rw [eq_of_complete next]
    exact size_lt_of_advance p.taken rfl (by simp [token]) advanced
  case h_2 token =>
    split at h
    · cases h
    · obtain ⟨ahead, advanced, next⟩ := exists_of_behind h
      cases next
      exact size_lt_of_advance p.taken.enter rfl (by simp [token]) advanced
  case h_3 token =>
    obtain ⟨ahead, advanced, next⟩ := exists_of_behind h
    cases next
    exact size_lt_of_advance p rfl (by simp [token]) advanced
  case h_5 token =>
    obtain ⟨ahead, advanced, next⟩ := exists_of_behind h
    split at next
    · cases next
    · rw [eq_of_complete next]
      exact show ahead.size < p.size from size_lt_of_advance p rfl (by simp [token]) advanced
  all_goals cases h

/-- Reads on inside the open lists, innermost first, until an expression is complete. -/
def read (opened : List OpenList) (p : Parser) : Except ParseError Node × Parser :=
  match _h : p.step opened with
  | .finished outcome after => (outcome, after)
  | .reading opened after => after.read opened
termination_by p.size
decreasing_by exact size_lt_of_step _h

def expression (p : Parser) : Except ParseError Node × Parser := p.read []

/-- One expression with nothing after it. -/
def query (p : Parser) : Except ParseError Node × Parser :=
  match p.expression with
  | (.ok node, after) =>
    if after.token = .eof then (.ok node, after)
    else (.error (.unexpectedToken .endOfInput after.token after.position), after.taken)
  | (.error error, after) => (.error error, after)

inductive Call where
  | expression
  | query
  deriving DecidableEq, Repr

def Call.run : Call → Parser → Except ParseError Node × Parser
  | expression, p => p.expression
  | query, p => p.query

/-- The answers to calls in a row. -/
def answers (p : Parser) : List Call → List (Except ParseError Node)
  | [] => []
  | call :: calls => (call.run p).1 :: (call.run p).2.answers calls

end Parser

end JsonQuery.Query
