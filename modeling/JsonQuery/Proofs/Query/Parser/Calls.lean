import JsonQuery.Proofs.Query.Cursor
import JsonQuery.Proofs.Query.Failures
import JsonQuery.Proofs.Query.Parser.Shift

/-!
# Calls in a row

After a call that returned a tree, or found a list empty or headless, a parser has closed all lists
and looks at a token that it has just read (`Looks`). So it stands where a new parser would stand
on the rest of the query. After any other error it has spent its token, or keeps one that starts no
expression (`Spent`), and all later calls fail.
-/

namespace JsonQuery.Query

/-- The list has been read to its end. -/
def ParseError.Recoverable : ParseError → Prop
  | .emptyList _ | .headlessList _ _ => True
  | _ => False

/-- Reading can go on after this answer. -/
def Resumes : Except ParseError Node → Prop
  | .ok _ => True
  | .error error => error.Recoverable

theorem recoverable_of_close {l : OpenList} {error : ParseError} (h : l.close = .error error) :
    error.Recoverable := by
  unfold OpenList.close at h
  split at h <;> cases h <;> trivial

/-! ### Places in the query -/

theorem Position.proper_first : Position.first.Proper := ⟨Nat.one_pos, Nat.one_pos⟩

theorem Lexer.Inside.proper {query : List Char} {l : Lexer} (inside : l.Inside query) :
    l.position.Proper := by
  obtain ⟨passed, -, position⟩ := inside
  rw [position]
  exact Position.proper_first.advance passed

/-- Without what is in front of it a token is read from the first position. -/
theorem Lexer.next_alone {l after : Lexer} {token : Token} (h : l.next = (.ok token, after)) :
    ∃ alone,
      (ofString (String.ofList (l.rest.dropWhile Text.isBlank))).next = (.ok token, alone) ∧
        after = alone.shift after.tokenStart := by
  have start := tokenStart_of_next h
  have shifted : (ofString (String.ofList (l.rest.dropWhile Text.isBlank))).shift after.tokenStart =
      ⟨l.rest.dropWhile Text.isBlank, l.position.advance (l.rest.takeWhile Text.isBlank),
        after.tokenStart⟩ := by
    rw [← start, ofString, String.toList_ofList]
    rfl
  have read := next_shift (l := ofString (String.ofList (l.rest.dropWhile Text.isBlank)))
    Position.proper_first after.tokenStart
  rw [shifted, next_solid, h] at read
  rcases step : (ofString (String.ofList (l.rest.dropWhile Text.isBlank))).next with
    ⟨error | found, alone⟩
  · rw [step] at read
    cases (Prod.mk.inj read).1
  · rw [step] at read
    obtain ⟨same, behind⟩ := Prod.mk.inj read
    cases same
    exact ⟨alone, rfl, behind⟩

namespace Parser

/-- The token is one of the query, and the lexer stands behind it. -/
def Looks (query : List Char) (p : Parser) : Prop :=
  ∃ l : Lexer, l.Inside query ∧ l.next = (.ok p.token, p.lexer) ∧ p.position = p.lexer.tokenStart

/-- No expression starts with the token. -/
def Spent (p : Parser) : Prop :=
  p.token = .eof ∨ p.token = .rparen ∨ ∃ name, p.token = .identifier name

section Step

variable {query : List Char} {p after : Parser}

theorem Looks.inside (looks : p.Looks query) : p.lexer.Inside query := by
  obtain ⟨l, inside, next, -⟩ := looks
  have there := inside.next
  rwa [next] at there

theorem looks_of_advance (inside : p.lexer.Inside query) (h : p.advance = (none, after)) :
    after.Looks query ∧ after.depth = p.depth := by
  unfold advance at h
  split at h
  case h_1 token lexer next =>
    cases h
    exact ⟨⟨p.lexer, inside, next, rfl⟩, rfl⟩
  case h_2 => cases h

theorem token_of_advance {error : LexError} (h : p.advance = (some error, after)) :
    after.token = p.token := by
  unfold advance at h
  split at h
  · cases h
  · cases h
    rfl

/-- How a call may end with `level` lists around it, and what it does until then. -/
def Leaves (query : List Char) (level : Nat) : Progress → Prop
  | .finished outcome after =>
    (Resumes outcome → after.Looks query ∧ after.depth = level) ∧
      (¬Resumes outcome → after.Spent)
  | .reading inner after => after.lexer.Inside query ∧ after.depth = level + inner.length

variable {opened : List OpenList} {level : Nat}

theorem leaves_fail {error : ParseError} (fatal : ¬error.Recoverable) (spent : p.Spent) :
    Leaves query level (p.fail opened error) :=
  ⟨fun resumes => absurd resumes fatal, fun _ => spent⟩

theorem leaves_complete (looks : p.Looks query) (depth : p.depth = level + opened.length)
    (node : Node) : Leaves query level (complete opened node p) := by
  cases opened with
  | nil => exact ⟨fun _ => ⟨looks, depth⟩, fun fatal => absurd trivial fatal⟩
  | cons l outer => exact ⟨looks.inside, depth⟩

theorem leaves_behind {next : Parser → Progress} (inside : p.lexer.Inside query) (spent : p.Spent)
    (goes : ∀ after, after.Looks query → after.depth = p.depth → Leaves query level (next after)) :
    Leaves query level (p.behind opened next) := by
  unfold behind
  rcases step : p.advance with ⟨_ | error, after⟩
  · obtain ⟨looks, depth⟩ := looks_of_advance inside step
    exact goes after looks depth
  · refine leaves_fail id ?_
    unfold Spent
    rwa [token_of_advance step]

theorem leaves_of_rule {progress : Progress} (rule : Rule p opened progress)
    (inside : p.lexer.Inside query) (depth : p.depth = level + opened.length) :
    Leaves query level progress := by
  cases rule with
  | literal token =>
    exact leaves_behind inside (.inl rfl) fun after looks same =>
      leaves_complete looks (same.trans depth) _
  | tooDeep => exact leaves_fail id (.inl rfl)
  | enter token room =>
    exact leaves_behind inside (.inl rfl) fun after looks same =>
      ⟨looks.inside, same.trans (congrArg (· + 1) depth)⟩
  | head token =>
    exact leaves_behind inside (.inr (.inr ⟨_, token⟩)) fun after looks same =>
      ⟨looks.inside, same.trans depth⟩
  | bare => exact leaves_fail id (.inl rfl)
  | @unfit l outer error token close =>
    refine leaves_behind inside (.inr (.inl token)) fun after looks same => ⟨fun _ => ⟨looks, ?_⟩,
      fun fatal => absurd (recoverable_of_close close) fatal⟩
    show after.depth - (outer.length + 1) = level
    rw [same, depth]
    exact Nat.add_sub_cancel ..
  | @close l outer node token close =>
    refine leaves_behind inside (.inr (.inl token)) fun after looks same =>
      leaves_complete (p := after.leave 1) looks ?_ node
    show after.depth - 1 = level + outer.length
    rw [same, depth]
    rfl
  | unclosed token => exact leaves_fail id (.inl token)
  | unexpected token => exact ⟨fun resumes => absurd resumes id, fun _ => .inl rfl⟩

end Step

/-! ### One call -/

section Call

variable {query : List Char} {p : Parser}

theorem leaves_read {opened : List OpenList} {level : Nat} (inside : p.lexer.Inside query)
    (depth : p.depth = level + opened.length) :
    Leaves query level (.finished (p.read opened).1 (p.read opened).2) := by
  fun_induction read opened p with
  | case1 opened p outcome after step => exact leaves_of_rule (step_iff.mp step) inside depth
  | case2 opened p inner after step ih =>
    obtain ⟨inside, depth⟩ := leaves_of_rule (step_iff.mp step) inside depth
    exact ih inside depth

/-- What follows an expression is spent when it is reported. -/
theorem leaves_run (inside : p.lexer.Inside query) (depth : p.depth = 0) (call : Call) :
    Leaves query 0 (.finished (call.run p).1 (call.run p).2) := by
  have read : Leaves query 0 (.finished p.expression.1 p.expression.2) :=
    @leaves_read query p [] 0 inside depth
  cases call with
  | expression => exact read
  | query =>
    show Leaves query 0 (.finished p.query.1 p.query.2)
    unfold Parser.query
    generalize p.expression = result at read
    obtain ⟨error | node, after⟩ := result
    · exact read
    · dsimp only at read ⊢
      by_cases eof : after.token = .eof
      · rw [if_pos eof]
        exact read
      · rw [if_neg eof]
        exact ⟨fun resumes => absurd resumes id, fun _ => .inl rfl⟩

theorem run_of_error {after : Parser} {error : ParseError} (h : p.expression = (.error error, after))
    (call : Call) : call.run p = (.error error, after) := by
  cases call with
  | expression => exact h
  | query =>
    show p.query = _
    rw [Parser.query, h]

theorem run_of_eof (eof : p.token = .eof) (call : Call) :
    call.run p = (.error (.unexpectedToken .expression .eof p.position), p.taken) := by
  refine run_of_error ?_ call
  rw [← eof]
  exact read_of_finished (step_of_rule (.unexpected (.inr eof)))

theorem run_of_spent (spent : p.Spent) (call : Call) :
    ∃ error, call.run p = (.error error, p.taken) := by
  rcases spent with eof | rparen | ⟨name, identifier⟩
  · exact ⟨_, run_of_eof eof call⟩
  · exact ⟨_, run_of_error (read_of_finished (step_of_rule (.unexpected (.inl rparen)))) call⟩
  · have elsewhere (start : Position) (outer : List OpenList) :
        ([] : List OpenList) ≠ ⟨start, none, []⟩ :: outer := (List.cons_ne_nil _ _).symm
    have bare := step_of_rule (.bare identifier elsewhere)
    exact ⟨_, run_of_error (read_of_finished bare) call⟩

end Call

/-! ### Several calls -/

/-- The parser after some calls. -/
def after (p : Parser) (calls : List Call) : Parser :=
  calls.foldl (fun p call => (call.run p).2) p

theorem answers_append (p : Parser) (calls : List Call) (call : Call) :
    p.answers (calls ++ [call]) = p.answers calls ++ [(call.run (p.after calls)).1] := by
  induction calls generalizing p with
  | nil => rfl
  | cons first calls ih => exact congrArg (_ :: ·) (ih _)

section Calls

variable {query : List Char} {p : Parser}

theorem looks_after {calls : List Call} (looks : p.Looks query) (depth : p.depth = 0)
    (resume : ∀ answer ∈ p.answers calls, Resumes answer) :
    (p.after calls).Looks query ∧ (p.after calls).depth = 0 := by
  induction calls generalizing p with
  | nil => exact ⟨looks, depth⟩
  | cons call calls ih =>
    obtain ⟨here, there⟩ := List.forall_mem_cons.mp resume
    obtain ⟨looks, depth⟩ := (leaves_run looks.inside depth call).1 here
    exact ih looks depth there

/-- At its end the parser reports nothing else. -/
theorem answers_of_eof (eof : p.token = .eof) (calls : List Call) :
    ∀ answer ∈ p.answers calls,
      answer = .error (.unexpectedToken .expression .eof p.position) := by
  induction calls generalizing p with
  | nil => exact List.forall_mem_nil _
  | cons call calls ih =>
    rw [answers, run_of_eof eof]
    exact List.forall_mem_cons.mpr ⟨rfl, @ih p.taken rfl⟩

/-- No tree, and at most one other error before the input is taken to be at its end. -/
def Fails (answers : List (Except ParseError Node)) : Prop :=
  (∀ answer ∈ answers, ∀ node, answer ≠ .ok node) ∧
    ∀ answer ∈ answers.tail, ∃ position,
      answer = .error (.unexpectedToken .expression .eof position)

theorem fails_of_spent (spent : p.Spent) (calls : List Call) : Fails (p.answers calls) := by
  cases calls with
  | nil => exact ⟨List.forall_mem_nil _, List.forall_mem_nil _⟩
  | cons call calls =>
    obtain ⟨error, run⟩ := run_of_spent spent call
    have ended := @answers_of_eof p.taken rfl calls
    rw [answers, run]
    refine ⟨List.forall_mem_cons.mpr ⟨fun node ok => (by cases ok), fun answer mem node ok => ?_⟩,
      fun answer mem => ⟨_, ended answer mem⟩⟩
    rw [ended answer mem] at ok
    cases ok

theorem fails_of_answers {calls : List Call} {given later : List (Except ParseError Node)}
    {error : ParseError} (state : p.Looks query ∧ p.depth = 0 ∨ p.Spent)
    (h : p.answers calls = given ++ .error error :: later) (fatal : ¬error.Recoverable) :
    Fails later := by
  induction given generalizing p calls with
  | nil =>
    cases calls with
    | nil => cases h
    | cons call calls =>
      obtain ⟨failed, rfl⟩ := List.cons.inj h
      refine fails_of_spent ?_ calls
      rcases state with ⟨looks, depth⟩ | spent
      · exact (leaves_run looks.inside depth call).2 (failed ▸ fatal)
      · obtain ⟨other, run⟩ := run_of_spent spent call
        rw [run]
        exact .inl rfl
  | cons answer given ih =>
    cases calls with
    | nil => cases h
    | cons call calls =>
      refine ih ?_ (List.cons.inj h).2
      rcases state with ⟨looks, depth⟩ | spent
      · have leaves := leaves_run looks.inside depth call
        by_cases resumes : Resumes (call.run p).1
        · exact .inl (leaves.1 resumes)
        · exact .inr (leaves.2 resumes)
      · obtain ⟨other, run⟩ := run_of_spent spent call
        rw [run]
        exact .inr (.inl rfl)

/-- A parser that looks at a token is a new one for the text from there on, but for positions. -/
theorem exists_fresh (looks : p.Looks query) (depth : p.depth = 0) :
    ∃ passed text fresh, query = passed ++ text ∧ p.position = Position.first.advance passed ∧
      ofLexer (.ofString (String.ofList text)) = .ok fresh ∧
      p = fresh.shift (Position.first.advance passed) := by
  obtain ⟨l, ⟨before, same, position⟩, next, looking⟩ := looks
  have place := Lexer.tokenStart_of_next next
  rw [← looking, position, ← Position.advance_append] at place
  have parts : l.rest.takeWhile Text.isBlank ++ l.rest.dropWhile Text.isBlank = l.rest :=
    List.takeWhile_append_dropWhile
  obtain ⟨alone, step, behind⟩ := Lexer.next_alone next
  rw [← looking] at behind
  refine ⟨before ++ l.rest.takeWhile Text.isBlank, l.rest.dropWhile Text.isBlank,
    ⟨alone, p.token, alone.tokenStart, 0⟩, ?_, place, ?_, ?_⟩
  · rw [List.append_assoc, parts, same]
  · rw [ofLexer, step]
  · rw [← place]
    have tokenStart := looking.trans (congrArg Lexer.tokenStart behind)
    exact (Parser.mk.injEq ..).mpr ⟨behind, rfl, tokenStart, depth⟩

theorem looks_of_ofLexer {lexer : Lexer} (inside : lexer.Inside query)
    (h : ofLexer lexer = .ok p) : p.Looks query ∧ p.depth = 0 := by
  unfold ofLexer at h
  rcases step : lexer.next with ⟨error | token, after⟩
  · rw [step] at h
    cases h
  · rw [step] at h
    cases h
    exact ⟨⟨lexer, inside, step, rfl⟩, rfl⟩

end Calls

end Parser

/-- After an error that is none of an empty or headless list, no call of the parser returns a tree,
and from the second call on it takes the input to be at its end. Before that all lists are closed
between calls, and a call returns what the first call of a new parser returns on the text from the
present token on, with the positions shifted. -/
theorem answers_resume (query : String) (p : Parser)
    (start : Parser.ofLexer (.ofString query) = .ok p) :
    (∀ calls given error later, p.answers calls = given ++ .error error :: later →
      ¬error.Recoverable →
      (∀ answer ∈ later, ∀ node, answer ≠ .ok node) ∧
        ∀ answer ∈ later.tail, ∃ position,
          answer = .error (.unexpectedToken .expression .eof position)) ∧
    ∀ calls call, (∀ answer ∈ p.answers calls, Resumes answer) →
      (p.after calls).depth = 0 ∧
        ∃ passed text fresh, query.toList = passed ++ text ∧
          (p.after calls).position = Position.first.advance passed ∧
          Parser.ofLexer (.ofString (String.ofList text)) = .ok fresh ∧
          p.answers (calls ++ [call]) = p.answers calls ++
            [(call.run fresh).1.mapError (ParseError.shift (Position.first.advance passed))] := by
  have inside : (Lexer.ofString query).Inside query.toList := ⟨[], rfl, rfl⟩
  obtain ⟨looks, depth⟩ := Parser.looks_of_ofLexer inside start
  refine ⟨fun calls given error later same fatal =>
    Parser.fails_of_answers (.inl ⟨looks, depth⟩) same fatal, fun calls call resume => ?_⟩
  obtain ⟨looks, depth⟩ := Parser.looks_after looks depth resume
  obtain ⟨passed, text, fresh, same, position, new, shifted⟩ := Parser.exists_fresh looks depth
  have insideText : (Lexer.ofString (String.ofList text)).Inside text :=
    ⟨[], String.toList_ofList.symm, rfl⟩
  have proper := (Parser.looks_of_ofLexer insideText new).1.inside.proper
  refine ⟨depth, passed, text, fresh, same, position, new, ?_⟩
  rw [Parser.answers_append, shifted, Parser.run_shift _ proper]

theorem answers_resume_bare :
    ∃ p, Parser.ofLexer (.ofString "() 7 a 1") = .ok p ∧
      p.answers [.expression, .expression, .expression, .query, .query] =
        [.error (.emptyList ⟨1, 1⟩), .ok (.literal (.integer 7))] ++
          .error (.bareIdentifier "a" ⟨1, 6⟩) ::
            [.error (.unexpectedToken .expression .eof ⟨1, 6⟩),
              .error (.unexpectedToken .expression .eof ⟨1, 6⟩)] ∧
      ¬(ParseError.bareIdentifier "a" ⟨1, 6⟩).Recoverable ∧
      (∃ position, (.error (.unexpectedToken .expression .eof ⟨1, 6⟩) : Except ParseError Node) =
        .error (.unexpectedToken .expression .eof position)) ∧
      (∀ answer ∈ p.answers [.expression], Resumes answer) ∧
      ∃ passed text fresh, "() 7 a 1".toList = passed ++ text ∧
        Parser.ofLexer (.ofString (String.ofList text)) = .ok fresh ∧
        p.answers [.expression, .expression] = p.answers [.expression] ++
          [fresh.expression.1.mapError (ParseError.shift (Position.first.advance passed))] := by
  obtain ⟨p, start, all, first⟩ : ∃ p, Parser.ofLexer (.ofString "() 7 a 1") = .ok p ∧
      p.answers [.expression, .expression, .expression, .query, .query] =
        [.error (.emptyList ⟨1, 1⟩), .ok (.literal (.integer 7))] ++
          .error (.bareIdentifier "a" ⟨1, 6⟩) ::
            [.error (.unexpectedToken .expression .eof ⟨1, 6⟩),
              .error (.unexpectedToken .expression .eof ⟨1, 6⟩)] ∧
      p.answers [.expression] = [.error (.emptyList ⟨1, 1⟩)] :=
    ⟨⟨⟨[')', ' ', '7', ' ', 'a', ' ', '1'], ⟨1, 2⟩, .first⟩, .lparen, .first, 0⟩, by cbv, by cbv,
      by cbv⟩
  have resume : ∀ answer ∈ p.answers [.expression], Resumes answer := by
    rw [first]
    exact List.forall_mem_singleton.mpr trivial
  obtain ⟨fails, fresh⟩ := answers_resume _ p start
  obtain ⟨-, passed, text, new, same, -, alone, answers⟩ := fresh [.expression] .expression resume
  exact ⟨p, start, all, id, (fails _ _ _ _ all id).2 _ List.mem_cons_self, resume, passed, text, new,
    same, alone, answers⟩

end JsonQuery.Query
