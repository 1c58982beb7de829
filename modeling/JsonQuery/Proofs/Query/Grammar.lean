import JsonQuery.Query.Node

/-!
# The grammar of queries

`Derives` relates the tokens of an expression to its tree, whatever the depth of its lists.
`Node.nesting` is that depth, and `firstTooDeep?` the place where a text exceeds the limit.
-/

namespace JsonQuery.Query

mutual

/-- How many lists are nested inside one another at most. -/
def Node.nesting : Node → Nat
  | .literal _ => 0
  | .call _ args => Node.nestingAll args + 1

def Node.nestingAll : List Node → Nat
  | [] => 0
  | arg :: rest => max arg.nesting (Node.nestingAll rest)

end

theorem Node.nestingAll_le_iff {args : List Node} {bound : Nat} :
    Node.nestingAll args ≤ bound ↔ ∀ arg ∈ args, arg.nesting ≤ bound := by
  induction args with
  | nil => simp [Node.nestingAll]
  | cons arg rest ih => rw [Node.nestingAll, Nat.max_le, ih, List.forall_mem_cons]

mutual

/-- The tokens of one expression, and its tree. -/
inductive Derives : List Token → Node → Prop where
  | literal (l : Literal) : Derives [.literal l] (.literal l)
  | call {body : List Token} {args : List Node} (name : String) (elements : DerivesAll body args) :
      Derives (.lparen :: .identifier name :: (body ++ [.rparen])) (.call name args)
  | headless {body : List Token} {args : List Node} (elements : DerivesAll body args)
      (few : args.length = 1 ∨ args.length = 2) :
      Derives (.lparen :: (body ++ [.rparen])) (.call "elem" args)

/-- The tokens of any number of expressions in a row. -/
inductive DerivesAll : List Token → List Node → Prop where
  | nil : DerivesAll [] []
  | cons {first others : List Token} {arg : Node} {args : List Node} (head : Derives first arg)
      (tail : DerivesAll others args) : DerivesAll (first ++ others) (arg :: args)

end

theorem DerivesAll.append {a b : List Token} {args more : List Node} (ha : DerivesAll a args)
    (hb : DerivesAll b more) : DerivesAll (a ++ b) (args ++ more) := by
  induction args generalizing a with
  | nil =>
    cases ha
    exact hb
  | cons arg args ih =>
    cases ha with
    | cons head tail =>
      rw [List.append_assoc]
      exact .cons head (ih tail)

theorem DerivesAll.snoc {a b : List Token} {args : List Node} {arg : Node}
    (ha : DerivesAll a args) (hb : Derives b arg) : DerivesAll (a ++ b) (args ++ [arg]) := by
  have single : DerivesAll (b ++ []) [arg] := .cons hb .nil
  rw [List.append_nil] at single
  exact ha.append single

/-- Where the first list opens that has `maxNesting` open lists around it, if `opened` lists are
open in front of the tokens. -/
def firstTooDeep? (opened : Nat) : List (Token × Position) → Option Position
  | [] => none
  | (.lparen, position) :: rest =>
    if maxNesting ≤ opened then some position else firstTooDeep? (opened + 1) rest
  | (.rparen, _) :: rest => firstTooDeep? (opened - 1) rest
  | _ :: rest => firstTooDeep? opened rest

theorem firstTooDeep?_identifier (opened : Nat) (name : String) (position : Position)
    (rest : List (Token × Position)) :
    firstTooDeep? opened ((.identifier name, position) :: rest) = firstTooDeep? opened rest := rfl

mutual

/-- An expression within the limit leaves the search where it was. -/
theorem firstTooDeep?_of_derives {words : List Token} {node : Node} (derived : Derives words node)
    {located : List (Token × Position)} (same : located.map Prod.fst = words) {opened : Nat}
    (room : opened + node.nesting ≤ maxNesting) (more : List (Token × Position)) :
    firstTooDeep? opened (located ++ more) = firstTooDeep? opened more := by
  match derived with
  | .literal value =>
    obtain ⟨⟨_, _⟩, rfl, rfl⟩ := List.map_eq_singleton_iff.mp same
    rfl
  | .call name elements =>
    obtain ⟨⟨_, _⟩, _, rfl, rfl, same₁⟩ := List.map_eq_cons_iff.mp same
    obtain ⟨⟨_, _⟩, _, rfl, rfl, same₂⟩ := List.map_eq_cons_iff.mp same₁
    obtain ⟨body, _, rfl, inside, closing⟩ := List.map_eq_append_iff.mp same₂
    obtain ⟨⟨_, _⟩, rfl, rfl⟩ := List.map_eq_singleton_iff.mp closing
    rw [Node.nesting] at room
    rw [List.cons_append, List.cons_append, List.append_assoc, firstTooDeep?,
      if_neg (by omega), firstTooDeep?_identifier,
      firstTooDeep?_of_derivesAll elements inside (by omega)]
    rfl
  | .headless elements few =>
    obtain ⟨⟨_, _⟩, _, rfl, rfl, same₁⟩ := List.map_eq_cons_iff.mp same
    obtain ⟨body, _, rfl, inside, closing⟩ := List.map_eq_append_iff.mp same₁
    obtain ⟨⟨_, _⟩, rfl, rfl⟩ := List.map_eq_singleton_iff.mp closing
    rw [Node.nesting] at room
    rw [List.cons_append, List.append_assoc, firstTooDeep?, if_neg (by omega),
      firstTooDeep?_of_derivesAll elements inside (by omega)]
    rfl

theorem firstTooDeep?_of_derivesAll {words : List Token} {args : List Node}
    (derived : DerivesAll words args) {located : List (Token × Position)}
    (same : located.map Prod.fst = words) {opened : Nat}
    (room : opened + Node.nestingAll args ≤ maxNesting) (more : List (Token × Position)) :
    firstTooDeep? opened (located ++ more) = firstTooDeep? opened more := by
  match derived with
  | .nil => rw [List.map_eq_nil_iff.mp same]; rfl
  | .cons head tail =>
    obtain ⟨first, others, rfl, sameFirst, sameOthers⟩ := List.map_eq_append_iff.mp same
    rw [Node.nestingAll] at room
    rw [List.append_assoc, firstTooDeep?_of_derives head sameFirst (by omega),
      firstTooDeep?_of_derivesAll tail sameOthers (by omega)]

end

/-! ### Tokens with their places -/

theorem map_eq_ok_iff {ε α β : Type} {x : Except ε α} {f : α → β} {b : β} :
    x.map f = .ok b ↔ ∃ a, x = .ok a ∧ f a = b := by
  cases x <;> simp [Except.map]

theorem map_eq_error_iff {ε α β : Type} {x : Except ε α} {f : α → β} {e : ε} :
    x.map f = .error e ↔ x = .error e := by
  cases x <;> simp [Except.map]

namespace Tokens

/-- Tokens to read before all others. -/
def append : List (Token × Position) → Tokens → Tokens
  | [], rest => rest
  | (token, position) :: more, rest => .cons token position (append more rest)

theorem append_append (a b : List (Token × Position)) (rest : Tokens) :
    append (a ++ b) rest = append a (append b rest) := by
  induction a with
  | nil => rfl
  | cons _ _ ih => rw [List.cons_append, append, append, ih]

theorem failure?_append {rest : Tokens} (h : rest.failure? = none)
    (located : List (Token × Position)) : (append located rest).failure? = none := by
  cases located with
  | nil => exact h
  | cons _ _ => rfl

theorem toList_append_finished (located : List (Token × Position)) (position : Position) :
    (append located (.finished position)).toList = .ok (located ++ [(.eof, position)]) := by
  induction located with
  | nil => rfl
  | cons _ _ ih => rw [append, toList, ih]; rfl

/-- Tokens that can all be read end where the query ends. -/
theorem eq_append_of_toList {tokens : Tokens} {all : List (Token × Position)}
    (h : tokens.toList = .ok all) :
    ∃ located position, tokens = append located (.finished position) ∧
      all = located ++ [(.eof, position)] := by
  induction tokens generalizing all with
  | finished position =>
    cases h
    exact ⟨[], position, rfl, rfl⟩
  | failed error => cases h
  | cons token position rest ih =>
    obtain ⟨more, read, rfl⟩ := map_eq_ok_iff.mp h
    obtain ⟨located, last, rfl, rfl⟩ := ih read
    exact ⟨(token, position) :: located, last, rfl, rfl⟩

end Tokens

theorem tokenize_eq_ok_iff {query : String} {tokens : List Token} :
    tokenize query = .ok (tokens ++ [.eof]) ↔
      ∃ located position, Tokens.ofString query = .append located (.finished position) ∧
        located.map Prod.fst = tokens := by
  constructor
  · intro h
    obtain ⟨all, read, words⟩ := map_eq_ok_iff.mp h
    obtain ⟨located, position, same, rfl⟩ := Tokens.eq_append_of_toList read
    rw [List.map_append] at words
    exact ⟨located, position, same, List.append_cancel_right words⟩
  · rintro ⟨located, position, same, rfl⟩
    rw [tokenize, same, Tokens.toList_append_finished]
    simp [Except.map]

end JsonQuery.Query
