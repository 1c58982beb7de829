import JsonQuery.Proofs.Query.Parsing
import Mathlib.Data.List.TakeWhile

/-!
# What tokens and trees are made of

A token of a query is `Proper`: its name is an identifier, its integer is not negative. So the tree
of a query is `Legible`, which is what its names and literals must be for a text to have this tree.
-/

namespace JsonQuery.Query

/-- A letter with letters and digits after it, all of ASCII, and no word that is a literal. -/
structure IsIdentifier (name : String) : Prop where
  letters : ∃ c rest, name.toList = c :: rest ∧ c.isAlpha = true ∧ ∀ d ∈ rest, d.isAlphanum = true
  notTrue : name ≠ "true"
  notFalse : name ≠ "false"
  notNull : name ≠ "null"

def spellsIdentifier : List Char → Bool
  | [] => false
  | c :: rest => c.isAlpha && rest.all Char.isAlphanum

theorem spellsIdentifier_iff {text : List Char} :
    spellsIdentifier text = true ↔
      ∃ c rest, text = c :: rest ∧ c.isAlpha = true ∧ ∀ d ∈ rest, d.isAlphanum = true := by
  cases text with
  | nil => simp [spellsIdentifier]
  | cons c rest =>
    rw [spellsIdentifier, Bool.and_eq_true, List.all_eq_true]
    constructor
    · exact fun h => ⟨c, rest, rfl, h⟩
    · rintro ⟨_, _, same, h⟩
      cases same
      exact h

instance (name : String) : Decidable (IsIdentifier name) :=
  decidable_of_iff (spellsIdentifier name.toList = true ∧ name ≠ "true" ∧ name ≠ "false" ∧
      name ≠ "null")
    ⟨fun ⟨letters, notTrue, notFalse, notNull⟩ =>
      ⟨spellsIdentifier_iff.mp letters, notTrue, notFalse, notNull⟩,
    fun h => ⟨spellsIdentifier_iff.mpr h.letters, h.notTrue, h.notFalse, h.notNull⟩⟩

def Token.Proper : Token → Prop
  | .literal (.integer n) => 0 ≤ n
  | .identifier name => IsIdentifier name
  | _ => True

/-! ### Tokens -/

theorem proper_of_integer {digits : List Char} {token : Token}
    (h : (integer digits).outcome = .ok token) : token.Proper := by
  unfold integer at h
  dsimp only at h
  split at h
  case isTrue small =>
    cases h
    show (0 : Int64) ≤ _
    rw [Int64.le_iff_toInt_le, Int64.toInt_ofNat_of_lt small, Int64.toInt_zero]
    exact Int.natCast_nonneg _
  case isFalse => cases h

theorem outcome_unicodeFault (offset : Nat) (text : List Char) (token : Token) :
    (unicodeFault offset text).outcome ≠ .ok token := by
  unfold unicodeFault
  dsimp only
  split
  · exact nofun
  split
  · exact nofun
  · exact nofun

theorem string_of_stringFrom {offset : Nat} {decoded text : List Char} {token : Token}
    (h : (stringFrom offset decoded text).outcome = .ok token) :
    ∃ s, token = .literal (.string s) := by
  fun_induction stringFrom offset decoded text with
  | case2 =>
    cases h
    exact ⟨_, rfl⟩
  | case4 _ _ _ _ _ _ _ _ _ ih => exact ih h
  | case5 => exact absurd h (outcome_unicodeFault _ _ _)
  | case6 => exact absurd h (outcome_unicodeFault _ _ _)
  | case7 _ _ _ _ _ _ _ _ ih => exact ih h
  | case9 _ _ _ _ _ _ ih => exact ih h
  | _ => cases h

theorem proper_wordToken {c : Char} {rest : List Char} (alpha : c.isAlpha = true)
    (alphanum : ∀ d ∈ rest, d.isAlphanum = true) :
    (wordToken (String.ofList (c :: rest))).Proper := by
  unfold wordToken
  split
  · trivial
  split
  · trivial
  split
  · trivial
  case isFalse notTrue notFalse notNull =>
    exact ⟨⟨c, rest, String.toList_ofList, alpha, alphanum⟩, notTrue, notFalse, notNull⟩

theorem proper_of_lexeme {c : Char} {text : List Char} {token : Token}
    (h : (lexeme c text).outcome = .ok token) : token.Proper := by
  unfold lexeme at h
  split at h
  · cases h
    trivial
  split at h
  · cases h
    trivial
  split at h
  · obtain ⟨s, rfl⟩ := string_of_stringFrom h
    trivial
  split at h
  case isTrue alpha =>
    cases h
    exact proper_wordToken alpha fun d mem => List.mem_takeWhile_imp mem
  split at h
  · exact proper_of_integer h
  · cases h

/-- What stands behind the blanks is the end of the query or a lexeme. -/
theorem Lexer.next_eq_ok {l after : Lexer} {token : Token} (h : l.next = (.ok token, after)) :
    (l.rest.dropWhile Text.isBlank = [] ∧ token = .eof) ∨
      ∃ c text, l.rest.dropWhile Text.isBlank = c :: text ∧
        (lexeme c text).outcome = .ok token ∧
        after.rest = (c :: text).drop (lexeme c text).length ∧
        after.position = after.tokenStart.advance ((c :: text).take (lexeme c text).length) := by
  unfold Lexer.next at h
  dsimp only at h
  split at h
  case h_1 same =>
    cases h
    exact .inl ⟨same, rfl⟩
  case h_2 c text same =>
    obtain ⟨found, rfl⟩ := Prod.mk.inj h
    cases outcome : (lexeme c text).outcome with
    | error fault => rw [outcome] at found; cases found
    | ok other =>
      rw [outcome] at found
      cases found
      exact .inr ⟨c, text, same, outcome, rfl, rfl⟩

theorem proper_of_next {l after : Lexer} {token : Token} (h : l.next = (.ok token, after)) :
    token.Proper := by
  rcases Lexer.next_eq_ok h with ⟨-, rfl⟩ | ⟨c, text, -, found, -⟩
  · trivial
  · exact proper_of_lexeme found

theorem proper_of_tokens {l : Lexer} {located : List (Token × Position)}
    (h : l.tokens.toList = .ok located) : ∀ token ∈ located.map Prod.fst, token.Proper := by
  fun_induction Lexer.tokens l generalizing located with
  | case1 => cases h
  | case2 =>
    cases h
    intro token mem
    cases List.mem_singleton.mp mem
    trivial
  | case3 l token after step ne ih =>
    obtain ⟨more, rest, rfl⟩ := map_eq_ok_iff.mp h
    exact List.forall_mem_cons.mpr ⟨proper_of_next step, ih rest⟩

/-! ### Syntax trees -/

/-- A tree of which every name is an identifier and no integer is negative. -/
inductive Node.Legible : Node → Prop where
  | literal {l : Literal} (proper : (Token.literal l).Proper) : Legible (.literal l)
  | call {name : String} {args : List Node} (identifier : IsIdentifier name)
      (inner : ∀ arg ∈ args, Legible arg) : Legible (.call name args)

mutual

theorem legible_of_derives {words : List Token} {node : Node} (derived : Derives words node)
    (proper : ∀ token ∈ words, token.Proper) : node.Legible := by
  match derived with
  | .literal l => exact .literal (proper _ List.mem_cons_self)
  | .call name elements =>
    exact .call (proper (.identifier name) (by simp))
      (legible_of_derivesAll elements fun token mem => proper token (by simp [mem]))
  | .headless elements few =>
    exact .call (by decide)
      (legible_of_derivesAll elements fun token mem => proper token (by simp [mem]))

theorem legible_of_derivesAll {words : List Token} {args : List Node}
    (derived : DerivesAll words args) (proper : ∀ token ∈ words, token.Proper) :
    ∀ arg ∈ args, arg.Legible := by
  match derived with
  | .nil => exact nofun
  | .cons head tail =>
    obtain ⟨here, there⟩ := List.forall_mem_append.mp proper
    exact List.forall_mem_cons.mpr ⟨legible_of_derives head here, legible_of_derivesAll tail there⟩

end

theorem legible_of_parse {query : String} {node : Node} (h : parse query = .ok node) :
    node.Legible := by
  obtain ⟨tokens, lexed, derived, -⟩ := derives_of_parse h
  obtain ⟨located, position, same, rfl⟩ := tokenize_eq_ok_iff.mp lexed
  have all : (Lexer.ofString query).tokens.toList = .ok (located ++ [(.eof, position)]) := by
    rw [← Tokens.toList_append_finished, ← same]
    rfl
  refine legible_of_derives derived fun token mem => proper_of_tokens all token ?_
  rw [List.map_append]
  exact List.mem_append_left _ mem

end JsonQuery.Query
