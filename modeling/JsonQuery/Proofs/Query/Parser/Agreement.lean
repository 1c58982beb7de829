import JsonQuery.Proofs.Query.Parser.Rules

/-!
# One parser, described twice

`Tokens.read` has all tokens in front of it, while a `Parser` asks its lexer for one after the
other and counts the lists it is in. On the tokens `ahead` of a parser both have the same answers,
so a query is parsed by the first call of a new parser (`parse_eq_query`).
-/

namespace JsonQuery.Query

namespace Tokens

section Errors

variable {stack outer : List OpenList} {l : OpenList} {rest : Tokens} {error : LexError}

theorem read_literal_failed (h : rest.failure? = some error) (value : Literal)
    (position : Position) :
    (read stack (.cons (.literal value) position rest)).1 = .error (.lex error) := by
  rw [read.eq_def]
  simp [h]

theorem read_lparen_failed (h : rest.failure? = some error) (room : stack.length < maxNesting)
    (position : Position) :
    (read stack (.cons .lparen position rest)).1 = .error (.lex error) := by
  have unlimited : ¬maxNesting ≤ stack.length := by omega
  rw [read.eq_def]
  simp [h, unlimited]

theorem read_head_failed (h : rest.failure? = some error) (start : Position) (name : String)
    (position : Position) :
    (read (⟨start, none, []⟩ :: outer) (.cons (.identifier name) position rest)).1 =
      .error (.lex error) := by
  rw [read.eq_def]
  simp [h]

theorem read_rparen_failed (h : rest.failure? = some error) (position : Position) :
    (read (l :: outer) (.cons .rparen position rest)).1 = .error (.lex error) := by
  rw [read.eq_def]
  simp [h]

theorem read_rparen_unfit (h : rest.failure? = none) {problem : ParseError}
    (closed : l.close = .error problem) (position : Position) :
    (read (l :: outer) (.cons .rparen position rest)).1 = .error problem := by
  rw [read.eq_def]
  simp [h, closed]

theorem read_rparen_outside (position : Position) (rest : Tokens) :
    (read [] (.cons .rparen position rest)).1 =
      .error (.unexpectedToken .expression .rparen position) := by
  rw [read.eq_def]

theorem read_bare (notHead : ∀ start outer, stack ≠ ⟨start, none, []⟩ :: outer) (name : String)
    (position : Position) :
    (read stack (.cons (.identifier name) position rest)).1 =
      .error (.bareIdentifier name position) := by
  rw [read.eq_def]
  split
  case h_6 => exact absurd rfl (notHead _ _)
  case h_7 same =>
    cases same
    rfl
  case h_9 other _ _ same =>
    cases same
    exact absurd rfl (other name)
  all_goals
    rename_i same
    cases same

end Errors

end Tokens

namespace Parser

/-- The token of a parser and those that its lexer will find. -/
def ahead (p : Parser) : Tokens :=
  if p.token = .eof then .finished p.position else .cons p.token p.position p.lexer.tokens

theorem ahead_of_token {p : Parser} {token : Token} (same : p.token = token) (ne : token ≠ .eof) :
    p.ahead = .cons token p.position p.lexer.tokens := by
  subst same
  exact if_neg ne

theorem failure?_ahead (p : Parser) : p.ahead.failure? = none := by
  unfold ahead
  split <;> rfl

theorem advance_cases (p : Parser) :
    (∃ error after, p.advance = (some error, after) ∧ p.lexer.tokens = .failed error) ∨
      ∃ after, p.advance = (none, after) ∧ p.lexer.tokens = after.ahead ∧
        after.depth = p.depth := by
  unfold advance
  rcases step : p.lexer.next with ⟨error | token, lexer⟩
  · exact .inl ⟨error, _, rfl, Lexer.tokens_of_error step⟩
  · refine .inr ⟨_, rfl, ?_, rfl⟩
    by_cases eof : token = .eof
    · subst eof
      exact Lexer.tokens_of_eof step
    · rw [Lexer.tokens_of_next step eof]
      exact (if_neg eof).symm

/-- What a parser made of a token is what reading the tokens makes of it. -/
def Agrees (result : Except ParseError Node × Tokens) : Progress → Prop
  | .finished outcome after =>
    result.1 = outcome ∧ (∀ node, outcome = .ok node → result.2 = after.ahead ∧ after.depth = 0)
  | .reading inner after => result = after.ahead.read inner ∧ after.depth = inner.length

section Agrees

variable {opened : List OpenList} {p : Parser}

theorem agrees_fail {result : Except ParseError Node × Tokens} {error : ParseError}
    (same : result.1 = .error error) : Agrees result (p.fail opened error) :=
  ⟨same, fun _ ok => by cases ok⟩

theorem agrees_complete (level : p.depth = opened.length) (node : Node) :
    Agrees (Tokens.resume opened node p.ahead) (complete opened node p) := by
  cases opened with
  | nil => exact ⟨rfl, fun _ _ => ⟨rfl, level⟩⟩
  | cons l outer => exact ⟨rfl, level⟩

theorem agrees_behind {result : Except ParseError Node × Tokens} {next : Parser → Progress}
    (fails : ∀ error, p.lexer.tokens = .failed error → result.1 = .error (.lex error))
    (goes : ∀ after, p.lexer.tokens = after.ahead → after.depth = p.depth →
      Agrees result (next after)) : Agrees result (p.behind opened next) := by
  unfold behind
  rcases p.advance_cases with ⟨error, after, step, failed⟩ | ⟨after, step, same, depth⟩
  · rw [step]
    exact agrees_fail (fails error failed)
  · rw [step]
    exact goes after same depth

theorem agrees_of_rule {progress : Progress} (rule : Rule p opened progress)
    (level : p.depth = opened.length) : Agrees (p.ahead.read opened) progress := by
  cases rule with
  | @literal _ value token =>
    rw [ahead_of_token token (literal_ne_eof value)]
    refine agrees_behind (fun error failed => ?_) fun after same depth => ?_
    · exact Tokens.read_literal_failed (congrArg Tokens.failure? failed) value p.position
    · rw [show p.lexer.tokens = _ from same, Tokens.read_literal after.failure?_ahead]
      exact agrees_complete (depth.trans level) _
  | tooDeep token full =>
    rw [ahead_of_token token nofun, Tokens.read_tooDeep (level ▸ full)]
    exact agrees_fail rfl
  | enter token room =>
    rw [ahead_of_token token nofun]
    refine agrees_behind (fun error failed => ?_) fun after same depth => ?_
    · exact Tokens.read_lparen_failed (congrArg Tokens.failure? failed) (level ▸ room) p.position
    · rw [show p.lexer.tokens = _ from same,
        Tokens.read_lparen after.failure?_ahead (level ▸ room)]
      exact ⟨rfl, depth.trans (congrArg (· + 1) level)⟩
  | @head start outer name token =>
    rw [ahead_of_token token nofun]
    refine agrees_behind (fun error failed => ?_) fun after same depth => ?_
    · exact Tokens.read_head_failed (congrArg Tokens.failure? failed) start name p.position
    · rw [same, Tokens.read_head after.failure?_ahead]
      exact ⟨rfl, depth.trans level⟩
  | bare token elsewhere =>
    rw [ahead_of_token token nofun]
    exact agrees_fail (Tokens.read_bare elsewhere ..)
  | unfit token close =>
    rw [ahead_of_token token nofun]
    refine agrees_behind (fun error failed => ?_) fun after same depth => ?_
    · exact Tokens.read_rparen_failed (congrArg Tokens.failure? failed) p.position
    · rw [same]
      exact agrees_fail (Tokens.read_rparen_unfit after.failure?_ahead close p.position)
  | @close l outer node token close =>
    rw [ahead_of_token token nofun]
    refine agrees_behind (fun error failed => ?_) fun after same depth => ?_
    · exact Tokens.read_rparen_failed (congrArg Tokens.failure? failed) p.position
    · rw [same, Tokens.read_rparen after.failure?_ahead close]
      refine agrees_complete ?_ node
      show after.depth - 1 = outer.length
      rw [depth, level, List.length_cons, Nat.add_sub_cancel]
  | unclosed token =>
    rw [ahead, if_pos token]
    exact agrees_fail rfl
  | unexpected token =>
    refine ⟨?_, fun _ ok => by cases ok⟩
    rcases token with token | token
    · rw [ahead_of_token token nofun, token]
      exact Tokens.read_rparen_outside ..
    · rw [ahead, if_pos token, token]
      rfl

end Agrees

theorem agrees_read {p : Parser} {opened : List OpenList} (level : p.depth = opened.length) :
    (p.ahead.read opened).1 = (p.read opened).1 ∧
      ∀ node, (p.read opened).1 = .ok node →
        (p.ahead.read opened).2 = (p.read opened).2.ahead ∧ (p.read opened).2.depth = 0 := by
  fun_induction read opened p with
  | case1 opened p outcome after step =>
    exact agrees_of_rule (step_iff.mp step) level
  | case2 opened p inner after step ih =>
    obtain ⟨same, inside⟩ := agrees_of_rule (step_iff.mp step) level
    rw [same]
    exact ih inside

/-- With nothing open, both read the same query. -/
theorem query_ahead {p : Parser} (level : p.depth = 0) : p.ahead.query.1 = p.query.1 := by
  obtain ⟨same, left⟩ := @agrees_read p [] level
  unfold query Tokens.query Tokens.expression expression
  generalize p.ahead.read [] = result at same left
  generalize p.read [] = answer at same left
  obtain ⟨outcome, rest⟩ := result
  obtain ⟨outcome', after⟩ := answer
  obtain rfl : outcome = outcome' := same
  cases outcome with
  | error error => rfl
  | ok node =>
    obtain ⟨rfl, -⟩ := left node rfl
    dsimp only
    by_cases eof : after.token = .eof
    · rw [if_pos eof, ahead, if_pos eof]
    · rw [if_neg eof, ahead, if_neg eof]

theorem ahead_of_ofLexer {lexer : Lexer} {p : Parser} (h : ofLexer lexer = .ok p) :
    lexer.tokens = p.ahead ∧ p.depth = 0 := by
  unfold ofLexer at h
  rcases step : lexer.next with ⟨error | token, after⟩
  · rw [step] at h
    cases h
  · rw [step] at h
    cases h
    by_cases eof : token = .eof
    · subst eof
      exact ⟨Lexer.tokens_of_eof step, rfl⟩
    · rw [Lexer.tokens_of_next step eof]
      exact ⟨(if_neg eof).symm, rfl⟩

end Parser

/-- A query is parsed by the first call of a new parser. -/
theorem parse_eq_query (query : String) :
    parse query = (Parser.ofLexer (.ofString query)).bind fun p => p.query.1 := by
  rw [parse, Tokens.ofString]
  cases started : Parser.ofLexer (.ofString query) with
  | error error =>
    unfold Parser.ofLexer at started
    rcases step : (Lexer.ofString query).next with ⟨fault | token, after⟩
    · rw [step] at started
      cases started
      rw [Lexer.tokens_of_error step]
      rfl
    · rw [step] at started
      cases started
  | ok p =>
    obtain ⟨same, level⟩ := Parser.ahead_of_ofLexer started
    rw [same]
    exact Parser.query_ahead level

end JsonQuery.Query
