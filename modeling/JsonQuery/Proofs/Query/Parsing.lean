import JsonQuery.Proofs.Query.Grammar

/-!
# The parser and the grammar

`Tokens.read_of_derives` says that the parser reads whatever the grammar derives within the limit,
and `Tokens.tooDeep_of_derives` where it stops beyond the limit. For the converse, `Opened` is what
the stack of open lists stands for: the tokens read so far. Every step keeps it, so a tree that is
read is derived by the tokens that were read for it (`Tokens.derives_of_read`).
-/

namespace JsonQuery.Query

namespace OpenList

def pushAll (l : OpenList) (args : List Node) : OpenList :=
  { l with elements := args.reverse ++ l.elements }

theorem pushAll_cons (l : OpenList) (arg : Node) (args : List Node) :
    l.pushAll (arg :: args) = (l.push arg).pushAll args := by
  simp [pushAll, push]

theorem close_call (start : Position) (name : String) (args : List Node) :
    (pushAll ⟨start, some name, []⟩ args).close = .ok (.call name args) := by
  simp [pushAll, close]

theorem close_headless (start : Position) {args : List Node}
    (few : args.length = 1 ∨ args.length = 2) :
    (pushAll ⟨start, none, []⟩ args).close = .ok (.call "elem" args) := by
  rcases few with one | two
  · simp [pushAll, close, one, Node.implicitFunction]
  · simp [pushAll, close, two, Node.implicitFunction]

end OpenList

namespace Tokens

/-! ### One token at a time -/

/-- Goes on after an expression inside the open lists. -/
def resume : List OpenList → Node → Tokens → Except ParseError Node × Tokens
  | [], node, rest => (.ok node, rest)
  | l :: outer, node, rest => read (l.push node :: outer) rest

section Step

variable {stack outer : List OpenList} {l : OpenList} {rest : Tokens}

theorem read_literal (h : rest.failure? = none) (value : Literal) (position : Position) :
    read stack (.cons (.literal value) position rest) = resume stack (.literal value) rest := by
  cases stack <;> rw [read.eq_def] <;> simp [h, resume]

theorem read_lparen (h : rest.failure? = none) (room : stack.length < maxNesting)
    (position : Position) :
    read stack (.cons .lparen position rest) = read (⟨position, none, []⟩ :: stack) rest := by
  have unlimited : ¬maxNesting ≤ stack.length := by omega
  conv => lhs; rw [read.eq_def]
  simp [h, unlimited]

theorem read_tooDeep (full : maxNesting ≤ stack.length) (position : Position) :
    read stack (.cons .lparen position rest) =
      (.error (.tooDeep position), .finished position) := by
  rw [read.eq_def]
  simp [full]

theorem read_head (h : rest.failure? = none) (start : Position) (name : String)
    (position : Position) :
    read (⟨start, none, []⟩ :: outer) (.cons (.identifier name) position rest) =
      read (⟨start, some name, []⟩ :: outer) rest := by
  conv => lhs; rw [read.eq_def]
  simp [h]

theorem read_rparen (h : rest.failure? = none) {node : Node} (closed : l.close = .ok node)
    (position : Position) :
    read (l :: outer) (.cons .rparen position rest) = resume outer node rest := by
  cases outer <;> rw [read.eq_def] <;> simp [h, closed, resume]

end Step

/-! ### Everything that is derived is read -/

mutual

theorem read_of_derives {words : List Token} {node : Node} (derived : Derives words node)
    {located : List (Token × Position)} (same : located.map Prod.fst = words)
    {rest : Tokens} (h : rest.failure? = none)
    {stack : List OpenList} (room : stack.length + node.nesting ≤ maxNesting) :
    read stack (append located rest) = resume stack node rest := by
  match derived with
  | .literal value =>
    obtain ⟨⟨_, position⟩, rfl, rfl⟩ := List.map_eq_singleton_iff.mp same
    exact read_literal h value position
  | .call name elements =>
    obtain ⟨⟨_, start⟩, _, rfl, rfl, same₁⟩ := List.map_eq_cons_iff.mp same
    obtain ⟨⟨_, position⟩, _, rfl, rfl, same₂⟩ := List.map_eq_cons_iff.mp same₁
    obtain ⟨body, _, rfl, inside, closing⟩ := List.map_eq_append_iff.mp same₂
    obtain ⟨⟨_, final⟩, rfl, rfl⟩ := List.map_eq_singleton_iff.mp closing
    rw [Node.nesting] at room
    rw [append, append, append_append, read_lparen rfl (by omega),
      read_head (failure?_append rfl _),
      readAll_of_derivesAll elements inside rfl (by omega)]
    exact read_rparen h (OpenList.close_call ..) final
  | .headless elements few =>
    obtain ⟨⟨_, start⟩, _, rfl, rfl, same₁⟩ := List.map_eq_cons_iff.mp same
    obtain ⟨body, _, rfl, inside, closing⟩ := List.map_eq_append_iff.mp same₁
    obtain ⟨⟨_, final⟩, rfl, rfl⟩ := List.map_eq_singleton_iff.mp closing
    rw [Node.nesting] at room
    rw [append, append_append, read_lparen (failure?_append rfl _) (by omega),
      readAll_of_derivesAll elements inside rfl (by omega)]
    exact read_rparen h (OpenList.close_headless start few) final

theorem readAll_of_derivesAll {words : List Token} {args : List Node}
    (derived : DerivesAll words args)
    {located : List (Token × Position)} (same : located.map Prod.fst = words)
    {rest : Tokens} (h : rest.failure? = none) {l : OpenList} {outer : List OpenList}
    (room : outer.length + 1 + Node.nestingAll args ≤ maxNesting) :
    read (l :: outer) (append located rest) = read (l.pushAll args :: outer) rest := by
  match derived with
  | .nil =>
    rw [List.map_eq_nil_iff.mp same]
    rfl
  | .cons head tail =>
    obtain ⟨first, others, rfl, sameFirst, sameOthers⟩ := List.map_eq_append_iff.mp same
    rw [Node.nestingAll] at room
    rw [append_append, read_of_derives head sameFirst (failure?_append h _)
        (by rw [List.length_cons]; omega), resume,
      readAll_of_derivesAll tail sameOthers h (by omega), OpenList.pushAll_cons]

end

/-! ### Beyond the limit -/

mutual

theorem tooDeep_of_derives {words : List Token} {node : Node} (derived : Derives words node)
    {located : List (Token × Position)} (same : located.map Prod.fst = words)
    {stack : List OpenList} (room : stack.length ≤ maxNesting)
    (deep : maxNesting < stack.length + node.nesting) (more : List (Token × Position))
    (rest : Tokens) :
    ∃ position, firstTooDeep? stack.length (located ++ more) = some position ∧
      (read stack (append located rest)).1 = .error (.tooDeep position) := by
  match derived with
  | .literal value =>
    rw [Node.nesting] at deep
    omega
  | .call name elements =>
    obtain ⟨⟨_, start⟩, _, rfl, rfl, same₁⟩ := List.map_eq_cons_iff.mp same
    obtain ⟨⟨_, position⟩, _, rfl, rfl, same₂⟩ := List.map_eq_cons_iff.mp same₁
    obtain ⟨body, _, rfl, inside, closing⟩ := List.map_eq_append_iff.mp same₂
    obtain ⟨⟨_, final⟩, rfl, rfl⟩ := List.map_eq_singleton_iff.mp closing
    rw [Node.nesting] at deep
    by_cases full : maxNesting ≤ stack.length
    · exact ⟨start, by simp [firstTooDeep?, full], by rw [append, read_tooDeep full]⟩
    · rw [List.cons_append, List.cons_append, List.append_assoc, firstTooDeep?, if_neg full,
        firstTooDeep?_identifier, append, append, append_append, read_lparen rfl (by omega),
        read_head (failure?_append rfl _)]
      exact tooDeepAll_of_derivesAll elements inside (by omega) (by omega) _ rfl
  | .headless elements few =>
    obtain ⟨⟨_, start⟩, _, rfl, rfl, same₁⟩ := List.map_eq_cons_iff.mp same
    obtain ⟨body, _, rfl, inside, closing⟩ := List.map_eq_append_iff.mp same₁
    obtain ⟨⟨_, final⟩, rfl, rfl⟩ := List.map_eq_singleton_iff.mp closing
    rw [Node.nesting] at deep
    by_cases full : maxNesting ≤ stack.length
    · exact ⟨start, by simp [firstTooDeep?, full], by rw [append, read_tooDeep full]⟩
    · rw [List.cons_append, List.append_assoc, firstTooDeep?, if_neg full,
        append, append_append, read_lparen (failure?_append rfl _) (by omega)]
      exact tooDeepAll_of_derivesAll elements inside (by omega) (by omega) _ rfl

theorem tooDeepAll_of_derivesAll {words : List Token} {args : List Node}
    (derived : DerivesAll words args)
    {located : List (Token × Position)} (same : located.map Prod.fst = words)
    {l : OpenList} {outer : List OpenList} (room : outer.length + 1 ≤ maxNesting)
    (deep : maxNesting < outer.length + 1 + Node.nestingAll args)
    (more : List (Token × Position)) {rest : Tokens} (h : rest.failure? = none) :
    ∃ position, firstTooDeep? (outer.length + 1) (located ++ more) = some position ∧
      (read (l :: outer) (append located rest)).1 = .error (.tooDeep position) := by
  match derived with
  | .nil =>
    rw [Node.nestingAll] at deep
    omega
  | @DerivesAll.cons _ _ arg _ head tail =>
    obtain ⟨first, others, rfl, sameFirst, sameOthers⟩ := List.map_eq_append_iff.mp same
    rw [Node.nestingAll] at deep
    rw [List.append_assoc, append_append]
    by_cases fits : outer.length + 1 + arg.nesting ≤ maxNesting
    -- the first expression fits, so it is read, and the excess is in one of the others
    · rw [firstTooDeep?_of_derives head sameFirst fits, read_of_derives head sameFirst
        (failure?_append h _) (by rw [List.length_cons]; omega), resume]
      exact tooDeepAll_of_derivesAll tail sameOthers room (by omega) more h
    · exact tooDeep_of_derives head sameFirst (show (l :: outer).length ≤ maxNesting from room)
        (by rw [List.length_cons]; omega) _ _

end

/-! ### Everything that is read is derived -/

/-- The tokens of a list that is not closed yet. -/
inductive Started : List Token → OpenList → Prop where
  | named {body : List Token} {l : OpenList} {name : String} (head : l.head = some name)
      (elements : DerivesAll body l.elements.reverse) :
      Started (.lparen :: .identifier name :: body) l
  | headless {body : List Token} {l : OpenList} (head : l.head = none)
      (elements : DerivesAll body l.elements.reverse) : Started (.lparen :: body) l

/-- The tokens that lead to a stack of open lists. -/
inductive Opened : List Token → List OpenList → Prop where
  | nil : Opened [] []
  | cons {before words : List Token} {l : OpenList} {outer : List OpenList}
      (around : Opened before outer) (started : Started words l)
      (room : outer.length < maxNesting)
      (within : ∀ e ∈ l.elements, outer.length + 1 + e.nesting ≤ maxNesting) :
      Opened (before ++ words) (l :: outer)

theorem Started.push {words more : List Token} {l : OpenList} {node : Node}
    (started : Started words l) (derived : Derives more node) :
    Started (words ++ more) (l.push node) := by
  have grow {body : List Token} (elements : DerivesAll body l.elements.reverse) :
      DerivesAll (body ++ more) (l.push node).elements.reverse := by
    rw [OpenList.push, List.reverse_cons]
    exact elements.snoc derived
  cases started with
  | named head elements => exact .named head (grow elements)
  | headless head elements => exact .headless head (grow elements)

/-- A list that can be closed is an expression. -/
theorem Started.close {words : List Token} {l : OpenList} {node : Node} (started : Started words l)
    (closed : l.close = .ok node) : Derives (words ++ [.rparen]) node := by
  cases started with
  | @named body _ name head elements =>
    simp only [OpenList.close, head, Except.ok.injEq] at closed
    subst closed
    exact .call name elements
  | @headless body _ head elements =>
    unfold OpenList.close at closed
    rw [head] at closed
    split at closed
    case h_1 impossible => cases impossible
    case h_2 => cases closed
    case h_3 one =>
      cases closed
      exact .headless elements (Or.inl (by rw [List.length_reverse]; exact one))
    case h_4 two =>
      cases closed
      exact .headless elements (Or.inr (by rw [List.length_reverse]; exact two))
    case h_5 => cases closed

theorem nesting_of_close {l : OpenList} {node : Node} {bound : Nat} (closed : l.close = .ok node)
    (within : ∀ e ∈ l.elements, bound + 1 + e.nesting ≤ maxNesting) (room : bound < maxNesting) :
    bound + node.nesting ≤ maxNesting := by
  have call (name : String) : bound + (Node.call name l.elements.reverse).nesting ≤ maxNesting := by
    have all : Node.nestingAll l.elements.reverse ≤ maxNesting - (bound + 1) :=
      Node.nestingAll_le_iff.mpr fun e member => by
        have := within e (List.mem_reverse.mp member)
        omega
    rw [Node.nesting]
    omega
  unfold OpenList.close at closed
  split at closed <;> cases closed
  all_goals exact call _

theorem Opened.push {words more : List Token} {l : OpenList} {outer : List OpenList} {node : Node}
    (opened : Opened words (l :: outer)) (derived : Derives more node)
    (fits : outer.length + 1 + node.nesting ≤ maxNesting) :
    Opened (words ++ more) (l.push node :: outer) := by
  cases opened with
  | cons around started room within =>
    rw [List.append_assoc]
    refine .cons around (started.push derived) room fun e member => ?_
    rcases List.mem_cons.mp member with rfl | member
    · exact fits
    · exact within e member

theorem derives_of_read {stack : List OpenList} {tokens rest : Tokens} {node : Node}
    {before : List Token} (opened : Opened before stack)
    (h : tokens.read stack = (.ok node, rest)) :
    ∃ located, tokens = append located rest ∧ Derives (before ++ located.map Prod.fst) node ∧
      node.nesting ≤ maxNesting := by
  fun_induction read stack tokens generalizing before with
  | case5 value position rest' good =>
    cases h
    cases opened
    exact ⟨[(.literal value, position)], rfl, .literal value, Nat.zero_le _⟩
  | case6 value position rest' l outer good ih =>
    have fits : outer.length + 1 + (Node.literal value).nesting ≤ maxNesting := by
      cases opened with
      | cons _ _ room _ => exact room
    obtain ⟨located, rfl, derived, small⟩ := ih (opened.push (.literal value) fits) h
    refine ⟨(.literal value, position) :: located, rfl, ?_, small⟩
    simpa using derived
  | case9 stack position rest' room good ih =>
    have start : Started [.lparen] ⟨position, none, []⟩ := .headless rfl .nil
    obtain ⟨located, rfl, derived, small⟩ :=
      ih (.cons opened start (Nat.lt_of_not_le room) (by simp)) h
    refine ⟨(.lparen, position) :: located, rfl, ?_, small⟩
    simpa using derived
  | case11 start outer name position rest' good ih =>
    cases opened with
    | cons around started room within =>
      cases started with
      | named head => cases head
      | headless head elements =>
        cases elements
        have named : Started [.lparen, .identifier name] ⟨start, some name, []⟩ := .named rfl .nil
        obtain ⟨located, rfl, derived, small⟩ := ih (.cons around named room within) h
        refine ⟨(.identifier name, position) :: located, rfl, ?_, small⟩
        simpa using derived
  | case15 l position rest' node' closed good =>
    cases h
    cases opened with
    | cons around started room within =>
      cases around
      refine ⟨[(.rparen, position)], rfl, started.close closed, ?_⟩
      have := nesting_of_close closed within room
      rwa [List.length_nil, Nat.zero_add] at this
  | case16 l position rest' node' l' outer closed good ih =>
    cases opened with
    | cons around started room within =>
      have fits := nesting_of_close closed within room
      obtain ⟨located, rfl, derived, small⟩ := ih (around.push (started.close closed) fits) h
      refine ⟨(.rparen, position) :: located, rfl, ?_, small⟩
      simpa using derived
  | _ => cases h

theorem query_eq_ok_iff {tokens : Tokens} {node : Node} :
    tokens.query.1 = .ok node ↔ ∃ position, tokens.read [] = (.ok node, .finished position) := by
  unfold query expression
  obtain ⟨outcome, rest⟩ := tokens.read []
  cases outcome <;> cases rest <;> simp

theorem query_eq_error {tokens : Tokens} {error : ParseError}
    (h : (tokens.read []).1 = .error error) : tokens.query.1 = .error error := by
  unfold query expression
  generalize tokens.read [] = result at h
  obtain ⟨outcome, rest⟩ := result
  obtain rfl : outcome = .error error := h
  rfl

end Tokens

/-! ### Queries -/

/-- The tree of a query is one that its tokens have. -/
theorem derives_of_parse {query : String} {node : Node} (h : parse query = .ok node) :
    ∃ tokens, tokenize query = .ok (tokens ++ [.eof]) ∧ Derives tokens node ∧
      node.nesting ≤ maxNesting := by
  obtain ⟨position, read⟩ := Tokens.query_eq_ok_iff.mp h
  obtain ⟨located, same, derived, small⟩ := Tokens.derives_of_read .nil read
  have lexed := tokenize_eq_ok_iff.mpr ⟨located, position, same, rfl⟩
  exact ⟨located.map Prod.fst, lexed, derived, small⟩

theorem parse_of_derives {query : String} {tokens : List Token} {node : Node}
    (lexed : tokenize query = .ok (tokens ++ [.eof])) (derived : Derives tokens node)
    (small : node.nesting ≤ maxNesting) : parse query = .ok node := by
  obtain ⟨located, position, same, rfl⟩ := tokenize_eq_ok_iff.mp lexed
  refine Tokens.query_eq_ok_iff.mpr ⟨position, ?_⟩
  rw [same, Tokens.read_of_derives derived rfl rfl (by rw [List.length_nil]; omega)]
  rfl

/-- The parser accepts what the grammar derives within the limit, and makes its tree. Of a query
that exceeds only the limit it reports the first parenthesis beyond it. -/
theorem parse_grammar (query : String) :
    (∀ node, parse query = .ok node ↔
      ∃ tokens, tokenize query = .ok (tokens ++ [.eof]) ∧ Derives tokens node ∧
        node.nesting ≤ maxNesting) ∧
    ∀ located last node, (Tokens.ofString query).toList = .ok (located ++ [(.eof, last)]) →
      Derives (located.map Prod.fst) node → maxNesting < node.nesting →
      ∃ position, firstTooDeep? 0 located = some position ∧
        parse query = .error (.tooDeep position) := by
  refine ⟨fun node => ⟨derives_of_parse, ?_⟩, ?_⟩
  · rintro ⟨tokens, lexed, derived, small⟩
    exact parse_of_derives lexed derived small
  · intro located last node lexed derived deep
    obtain ⟨located', last', same, eq⟩ := Tokens.eq_append_of_toList lexed
    obtain rfl : located = located' := (List.append_inj' eq rfl).1
    have room : ([] : List OpenList).length ≤ maxNesting := Nat.zero_le _
    obtain ⟨position, first, error⟩ := Tokens.tooDeep_of_derives derived rfl room
      (by rw [List.length_nil]; omega) [] (.finished last')
    rw [List.append_nil] at first
    exact ⟨position, first, by rw [parse, same]; exact Tokens.query_eq_error error⟩

end JsonQuery.Query
