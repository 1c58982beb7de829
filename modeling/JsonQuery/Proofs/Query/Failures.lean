import JsonQuery.Proofs.Query.Lexing
import JsonQuery.Query.Compile

/-!
# Errors of a query

A query with a token that cannot be read has no tree. The parser reports that token, or an error of
its own that lies before it (`parse_of_tokenize`): it never looks further ahead than one token, and
every token it has read starts before the one it cannot read.
-/

namespace JsonQuery.Query

namespace Position

/-- On an earlier line, or on the same line in an earlier column. -/
def Before (p q : Position) : Prop := p.line < q.line ∨ p.line = q.line ∧ p.column < q.column

theorem Before.trans {p q r : Position} (h : p.Before q) (h' : q.Before r) : p.Before r := by
  unfold Before at h h' ⊢
  omega

theorem before_after (p : Position) (c : Char) : p.Before (p.after c) := by
  unfold Before after
  split
  · exact .inl (Nat.lt_succ_self _)
  · exact .inr ⟨rfl, Nat.lt_succ_self _⟩

theorem before_advance (p : Position) {text : List Char} (nonempty : text ≠ []) :
    p.Before (p.advance text) := by
  induction text generalizing p with
  | nil => exact absurd rfl nonempty
  | cons c rest ih =>
    have first := p.before_after c
    by_cases single : rest = []
    · subst single
      exact first
    · exact first.trans (ih (p.after c) single)

end Position

/-! ### Tokens -/

namespace Lexer

/-- Where the token starts that ends the tokens: the first that cannot be read, or else the end of
the query. -/
def stop (l : Lexer) : Position :=
  match _h : l.next with
  | (.error _, after) => after.tokenStart
  | (.ok token, after) => if _ne : token = .eof then after.tokenStart else after.stop
termination_by l.rest.length
decreasing_by exact Lexer.length_lt_of_next _h _ne

theorem tokenStart_of_next {l after : Lexer} {outcome : Except LexError Token}
    (h : l.next = (outcome, after)) :
    after.tokenStart = l.position.advance (l.rest.takeWhile Text.isBlank) := by
  obtain ⟨_, -, located, -, -⟩ := l.exists_read
  rwa [h] at located

/-- A token takes at least one character. -/
theorem position_of_next {l after : Lexer} {token : Token} (h : l.next = (.ok token, after))
    (ne : token ≠ .eof) : ∃ text, text ≠ [] ∧ after.position = after.tokenStart.advance text := by
  obtain ⟨read, -, -, moved, nonempty⟩ := l.exists_read
  rw [h] at moved nonempty
  exact ⟨read, nonempty token rfl ne, moved⟩

theorem stop_of_next {l after : Lexer} {token : Token} (h : l.next = (.ok token, after))
    (ne : token ≠ .eof) : l.stop = after.stop := by
  rw [stop]
  split
  case h_1 failed => rw [h] at failed; cases failed
  case h_2 found =>
    rw [h] at found
    cases found
    exact dif_neg ne

/-- The tokens never end in front of where the lexer is. -/
theorem exists_stop (l : Lexer) : ∃ text, l.stop = l.position.advance text := by
  fun_induction stop l with
  | case1 l error after step => exact ⟨_, tokenStart_of_next step⟩
  | case2 l after step => exact ⟨_, tokenStart_of_next step⟩
  | case3 l token after step ne ih =>
    obtain ⟨later, same⟩ := ih
    obtain ⟨text, -, position⟩ := position_of_next step ne
    refine ⟨l.rest.takeWhile Text.isBlank ++ text ++ later, ?_⟩
    rw [same, position, tokenStart_of_next step, Position.advance_append, Position.advance_append]

theorem before_stop {l after : Lexer} {token : Token} (h : l.next = (.ok token, after))
    (ne : token ≠ .eof) : after.tokenStart.Before l.stop := by
  obtain ⟨text, nonempty, position⟩ := position_of_next h ne
  obtain ⟨later, same⟩ := after.exists_stop
  rw [stop_of_next h ne, same, position, ← Position.advance_append]
  exact Position.before_advance _ (by simp [nonempty])

end Lexer

namespace Tokens

/-- The error that ends the tokens, if one does. -/
def ending? : Tokens → Option LexError
  | .finished _ => none
  | .failed error => some error
  | .cons _ _ rest => rest.ending?

theorem ending?_of_toList_error {tokens : Tokens} {error : LexError}
    (h : tokens.toList = .error error) : tokens.ending? = some error := by
  induction tokens with
  | finished position => cases h
  | failed other => cases h; rfl
  | cons token position rest ih => exact ih (map_eq_error_iff.mp h)

theorem ending?_append_finished (located : List (Token × Position)) (position : Position) :
    (append located (.finished position)).ending? = none := by
  induction located with
  | nil => rfl
  | cons _ _ ih => exact ih

/-- All tokens start in front of `stop`, and this error ends them, if one does. -/
def Leads (failure : Option LexError) (stop : Position) : Tokens → Prop
  | .finished _ => failure = none
  | .failed error => failure = some error
  | .cons _ position rest => position.Before stop ∧ rest.Leads failure stop

end Tokens

theorem leads_tokens (l : Lexer) : l.tokens.Leads l.tokens.ending? l.stop := by
  fun_induction Lexer.tokens l with
  | case1 => rfl
  | case2 => rfl
  | case3 l token after step ne ih =>
    refine ⟨Lexer.before_stop step ne, ?_⟩
    rw [Lexer.stop_of_next step ne]
    exact ih

/-! ### The parser -/

/-- Where an error of the parser is. The errors of tokens have places of their own. -/
def ParseError.position? : ParseError → Option Position
  | .lex _ => none
  | .unexpectedToken _ _ position | .emptyList position | .unclosedList position
  | .bareIdentifier _ position | .headlessList _ position | .tooDeep position => some position

/-- The error is the one that ends the tokens, or it is in front of them if one does. -/
def ParseError.Blames (failure : Option LexError) (stop : Position) (problem : ParseError) : Prop :=
  (∃ error, failure = some error ∧ problem = .lex error) ∨
    ∃ position, problem.position? = some position ∧ (failure ≠ none → position.Before stop)

/-- What a parser leaves of such tokens, or the error that it reports. -/
def Tokens.Reported (failure : Option LexError) (stop : Position) :
    Except ParseError Node × Tokens → Prop
  | (.ok _, rest) => rest.failure? = none ∧ rest.Leads failure stop
  | (.error problem, _) => problem.Blames failure stop

section Parser

variable {failure : Option LexError} {stop : Position}

theorem Tokens.Leads.failed {tokens : Tokens} (leads : tokens.Leads failure stop) {error : LexError}
    (h : tokens.failure? = some error) : (ParseError.lex error).Blames failure stop := by
  cases tokens with
  | failed => cases h; exact .inl ⟨error, leads, rfl⟩
  | _ => cases h

theorem position?_of_close {l : OpenList} {problem : ParseError} (h : l.close = .error problem) :
    problem.position? = some l.start := by
  unfold OpenList.close at h
  split at h <;> cases h <;> rfl

theorem Tokens.reported_read {stack : List OpenList} {tokens : Tokens}
    (opened : ∀ l ∈ stack, l.start.Before stop) (leads : tokens.Leads failure stop) :
    Reported failure stop (tokens.read stack) := by
  fun_induction read stack tokens with
  | case1 stack error => exact .inl ⟨error, leads, rfl⟩
  | case2 position => exact .inr ⟨position, rfl, fun some => absurd leads some⟩
  | case3 l outer position => exact .inr ⟨l.start, rfl, fun _ => opened l List.mem_cons_self⟩
  | case4 stack value position rest error failed => exact leads.2.failed failed
  | case5 value position rest good => exact ⟨good, leads.2⟩
  | case6 value position rest l outer good ih =>
    obtain ⟨here, around⟩ := List.forall_mem_cons.mp opened
    exact ih (List.forall_mem_cons.mpr ⟨here, around⟩) leads.2
  | case7 stack position rest full => exact .inr ⟨position, rfl, fun _ => leads.1⟩
  | case8 stack position rest room error failed => exact leads.2.failed failed
  | case9 stack position rest room good ih =>
    exact ih (List.forall_mem_cons.mpr ⟨leads.1, opened⟩) leads.2
  | case10 start outer name position rest error failed => exact leads.2.failed failed
  | case11 start outer name position rest good ih =>
    obtain ⟨here, around⟩ := List.forall_mem_cons.mp opened
    exact ih (List.forall_mem_cons.mpr ⟨here, around⟩) leads.2
  | case12 stack name position rest => exact .inr ⟨position, rfl, fun _ => leads.1⟩
  | case13 l outer position rest error failed => exact leads.2.failed failed
  | case14 l outer position rest problem closed good =>
    exact .inr ⟨l.start, position?_of_close closed, fun _ => opened l List.mem_cons_self⟩
  | case15 l position rest node closed good => exact ⟨good, leads.2⟩
  | case16 l position rest node l' outer closed good ih =>
    obtain ⟨-, around⟩ := List.forall_mem_cons.mp opened
    obtain ⟨here, around⟩ := List.forall_mem_cons.mp around
    exact ih (List.forall_mem_cons.mpr ⟨here, around⟩) leads.2
  | case17 stack token position rest => exact .inr ⟨position, rfl, fun _ => leads.1⟩

theorem Tokens.reported_expression {tokens : Tokens} (leads : tokens.Leads failure stop) :
    Reported failure stop tokens.expression := reported_read (List.forall_mem_nil _) leads

/-- What is left after an expression is unwanted if it is a token. -/
theorem Tokens.blames_of_query {tokens : Tokens} {problem : ParseError}
    (leads : tokens.Leads failure stop) (h : tokens.query.1 = .error problem) :
    problem.Blames failure stop := by
  have reported := reported_expression leads
  unfold query at h
  generalize tokens.expression = result at h reported
  obtain ⟨outcome, rest⟩ := result
  cases outcome with
  | error other => cases h; exact reported
  | ok node =>
    cases rest with
    | finished position => cases h
    | failed error => cases reported.1
    | cons token position rest =>
      cases h
      exact .inr ⟨position, rfl, fun _ => reported.2.1⟩

/-- Tokens that an error ends are not a query. -/
theorem Tokens.query_ne_ok {tokens : Tokens} {error : LexError}
    (leads : tokens.Leads (some error) stop) (node : Node) : tokens.query.1 ≠ .ok node := by
  intro ok
  obtain ⟨position, read⟩ := query_eq_ok_iff.mp ok
  have reported := reported_expression leads
  rw [expression, read] at reported
  cases reported.2

end Parser

/-! ### Queries -/

theorem blames_of_parse {query : String} {problem : ParseError} (h : parse query = .error problem) :
    problem.Blames (Tokens.ofString query).ending? (Lexer.ofString query).stop :=
  Tokens.blames_of_query (leads_tokens (Lexer.ofString query)) h

theorem ending?_of_tokenize {query : String} {tokens : List Token}
    (h : tokenize query = .ok tokens) : (Tokens.ofString query).ending? = none := by
  obtain ⟨all, read, -⟩ := map_eq_ok_iff.mp h
  obtain ⟨located, position, same, -⟩ := Tokens.eq_append_of_toList read
  rw [same, Tokens.ending?_append_finished]

theorem compileWith_of_parse_error {query : String} {problem : ParseError}
    (h : parse query = .error problem) (registry : Registry) :
    compileWith registry query = .error (.ofParseError problem) := by
  rw [compileWith, h]

/-- An unreadable token is reported, or an error of the parser in front of it. -/
theorem parse_of_tokenize_error {query : String} {error : LexError}
    (failed : tokenize query = .error error) (registry : Registry) :
    parse query = .error (.lex error) ∧ compileWith registry query = .error (.lex error) ∨
      ∃ problem position, parse query = .error problem ∧
        compileWith registry query = .error (.parse problem) ∧
        problem.position? = some position ∧ position.Before (Lexer.ofString query).stop := by
  have ending := Tokens.ending?_of_toList_error (map_eq_error_iff.mp failed)
  cases parsed : parse query with
  | ok node =>
    have leads := leads_tokens (Lexer.ofString query)
    rw [show (Lexer.ofString query).tokens.ending? = some error from ending] at leads
    exact absurd parsed (Tokens.query_ne_ok leads node)
  | error problem =>
    have compiled := compileWith_of_parse_error parsed registry
    have blames := blames_of_parse parsed
    rw [ending] at blames
    rcases blames with ⟨_, same, rfl⟩ | ⟨position, place, before⟩
    · cases same
      exact .inl ⟨rfl, compiled⟩
    · refine .inr ⟨problem, position, rfl, ?_, place, before nofun⟩
      rw [compiled]
      cases problem with
      | lex error => cases place
      | _ => rfl

theorem parse_ne_lex {query : String} {tokens : List Token} (lexed : tokenize query = .ok tokens)
    (error : LexError) : parse query ≠ .error (.lex error) := by
  intro failed
  rcases blames_of_parse failed with ⟨_, same, -⟩ | ⟨position, place, -⟩
  · rw [ending?_of_tokenize lexed] at same
    cases same
  · cases place

theorem compileWith_ne_parse_lex (registry : Registry) (query : String) (error : LexError) :
    compileWith registry query ≠ .error (.parse (.lex error)) := by
  intro failed
  cases parsed : parse query with
  | ok node =>
    rw [compileWith, parsed] at failed
    dsimp only at failed
    cases bound : registry.bind node with
    | ok e => rw [bound] at failed; cases failed
    | error other => rw [bound] at failed; cases failed
  | error problem =>
    rw [compileWith_of_parse_error parsed] at failed
    cases problem <;> cases failed

/-- Of a query with a token that cannot be read, parser and compiler report the error in this token,
or one in the order of the tokens that lies in front of it. Of other queries the parser reports no
errors in tokens, and the compiler never takes one for an error in their order. -/
theorem parse_of_tokenize (query : String) (registry : Registry) :
    (∀ error, tokenize query = .error error →
      parse query = .error (.lex error) ∧ compileWith registry query = .error (.lex error) ∨
      ∃ problem position, parse query = .error problem ∧
        compileWith registry query = .error (.parse problem) ∧
        problem.position? = some position ∧ position.Before (Lexer.ofString query).stop) ∧
    (∀ tokens, tokenize query = .ok tokens → ∀ error, parse query ≠ .error (.lex error)) ∧
    ∀ error, compileWith registry query ≠ .error (.parse (.lex error)) :=
  ⟨fun _ failed => parse_of_tokenize_error failed registry, fun _ lexed => parse_ne_lex lexed,
    compileWith_ne_parse_lex registry query⟩

theorem parse_of_tokenize_rparen :
    tokenize ") ]" = .error (.unexpectedChar ']' ⟨1, 3⟩) ∧
      parse ") ]" = .error (.unexpectedToken .expression .rparen .first) ∧
      Position.first.Before (Lexer.ofString ") ]").stop := by
  have lexed : tokenize ") ]" = .error (.unexpectedChar ']' ⟨1, 3⟩) := by cbv
  have parsed : parse ") ]" = .error (.unexpectedToken .expression .rparen .first) := by cbv
  refine ⟨lexed, parsed, ?_⟩
  rcases (parse_of_tokenize ") ]" .standard).1 _ lexed with
    ⟨lexical, -⟩ | ⟨problem, position, same, -, place, before⟩
  · rw [parsed] at lexical
    cases lexical
  · rw [parsed] at same
    cases same
    cases place
    exact before

end JsonQuery.Query
