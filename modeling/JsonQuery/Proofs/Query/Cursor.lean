import JsonQuery.Proofs.Query.Breaks
import Mathlib.Data.List.DropRight

/-!
# Where the lexer stands

A lexer can be asked for tokens again and again, also behind an error. Between two requests it
stands at a cursor: what is left of the query begins there, and line and column are counted from
what lies before it (`Stands`). A request moves the cursor forward (`Request`), and one that finds
nothing to read changes nothing any more (`next_next`), so the tokens of a query are read in at most
one request more than it has characters (`requests_of_query`).
-/

namespace JsonQuery.Query

/-- Where a text ends that begins at the first position. -/
def Position.locate (text : List Char) : Position :=
  ⟨1 + text.count '\n', 1 + (text.rtakeWhile (· ≠ '\n')).length⟩

theorem Position.advance_first (text : List Char) : first.advance text = locate text := by
  induction text using List.reverseRecOn with
  | nil => rfl
  | append_singleton text c ih =>
    rw [advance_append, ih]
    show (locate text).after c = locate (text ++ [c])
    unfold locate after
    by_cases feed : c = '\n'
    · subst feed
      rw [if_pos rfl, List.count_append, List.rtakeWhile_concat_neg _ _ _ (by simp)]
      rfl
    · rw [if_neg feed, List.count_append, List.count_singleton, if_neg (by simpa using feed),
        List.rtakeWhile_concat_pos _ _ _ (by simpa using feed), List.length_append]
      rfl

/-! ### Lexemes that are none -/

theorem lexeme_ne_eof (c : Char) (text : List Char) : (lexeme c text).outcome ≠ .ok .eof := by
  intro eof
  obtain ⟨s, more, same, ends⟩ := spelling_of_lexeme eof
  obtain ⟨c', rest, first, -, found⟩ := lexeme_spelling ends
  rw [first, List.cons_append] at same
  obtain ⟨rfl, rfl⟩ := List.cons.inj same
  rw [found] at eof
  exact s.token_ne_eof (Except.ok.inj eof)

/-- Only what no lexeme begins with is unexpected, and none of it is read. -/
theorem length_of_unexpected {c found : Char} {text : List Char}
    (h : (lexeme c text).outcome = .error (.unexpected found)) : (lexeme c text).length = 0 := by
  rcases fault_cases h with ⟨-, pieces, b, -, fault⟩ | ⟨-, none⟩ | ⟨digits, overflow⟩
  · cases b <;> cases fault
  · exact none
  · cases overflow

theorem length_of_settled {c : Char} {text whole : List Char} {start : Position}
    (settled : (lexeme c text).outcome.mapError (Fault.locate start whole) = .ok .eof ∨
      ∃ found position, (lexeme c text).outcome.mapError (Fault.locate start whole) =
        .error (.unexpectedChar found position)) : (lexeme c text).length = 0 := by
  cases outcome : (lexeme c text).outcome with
  | ok token =>
    rw [outcome] at settled
    rcases settled with eof | ⟨found, position, unexpected⟩
    · cases eof
      exact absurd outcome (lexeme_ne_eof c text)
    · cases unexpected
  | error fault =>
    rw [outcome] at settled
    rcases settled with eof | ⟨found, position, unexpected⟩
    · cases eof
    · cases fault with
      | unexpected => exact length_of_unexpected outcome
      | _ => cases unexpected

namespace Lexer

/-- The lexer after this many requests. -/
def after (l : Lexer) : Nat → Lexer
  | 0 => l
  | n + 1 => (l.after n).next.2

/-- The answer to the request after `n` others. -/
def answer (l : Lexer) (n : Nat) : Except LexError Token := (l.after n).next.1

/-- The lexer has the rest of the query in front of it. -/
def Inside (query : List Char) (l : Lexer) : Prop :=
  ∃ passed, query = passed ++ l.rest ∧ l.position = Position.first.advance passed

/-- How many characters of the text lie behind the lexer. -/
def cursor (text : List Char) (l : Lexer) : Nat := text.length - l.rest.length

/-- The lexer is at its cursor in this text. -/
structure Stands (text : List Char) (l : Lexer) : Prop where
  within : l.cursor text ≤ text.length
  rest : l.rest = text.drop (l.cursor text)
  position : l.position = .locate (text.take (l.cursor text))

/-- A request in this text looks for a token from `start` on. -/
structure Request (text : List Char) (l : Lexer) (start : Nat) : Prop where
  before : l.Stands text
  after : l.next.2.Stands text
  forward : l.cursor text ≤ start
  onward : start ≤ l.next.2.cursor text
  blank : ∀ i, l.cursor text ≤ i → i < start → ∃ c, text[i]? = some c ∧ Text.isBlank c = true
  solid : ∀ c, text[start]? = some c → Text.isBlank c = false
  located : l.next.2.tokenStart = .locate (text.take start)
  taken : ∀ token, l.next.1 = .ok token → token ≠ .eof → l.cursor text < l.next.2.cursor text

variable {l : Lexer} {text passed : List Char}

/-! ### One request -/

theorem cursor_of_append (whole : text = passed ++ l.rest) : l.cursor text = passed.length := by
  rw [cursor, whole, List.length_append, Nat.add_sub_cancel]

theorem Inside.stands (inside : l.Inside text) : l.Stands text := by
  obtain ⟨passed, whole, position⟩ := inside
  have here := cursor_of_append whole
  have within : passed.length ≤ text.length := by
    rw [whole, List.length_append]
    exact Nat.le_add_right ..
  refine ⟨here ▸ within, ?_, ?_⟩
  · rw [here, whole, List.drop_left]
  · rw [position, here, whole, List.take_left, Position.advance_first]

theorem exists_getElem?_between {p : Char → Bool} {before between behind : List Char}
    (all : ∀ c ∈ between, p c = true) {i : Nat} (low : before.length ≤ i)
    (high : i < (before ++ between).length) :
    ∃ c, (before ++ between ++ behind)[i]? = some c ∧ p c = true := by
  rw [List.length_append] at high
  have inside : i - before.length < between.length := by omega
  refine ⟨between[i - before.length], ?_, all _ (List.getElem_mem inside)⟩
  rw [List.append_assoc, List.getElem?_append_right low, List.getElem?_append_left inside,
    List.getElem?_eq_getElem inside]

theorem Inside.next (inside : l.Inside text) : l.next.2.Inside text := by
  obtain ⟨passed, whole, position⟩ := inside
  obtain ⟨read, left, located, moved, -⟩ := l.exists_read
  refine ⟨passed ++ l.rest.takeWhile Text.isBlank ++ read, ?_, ?_⟩
  · rw [List.append_assoc, List.append_assoc, ← left, List.takeWhile_append_dropWhile]
    exact whole
  · rw [moved, located, position, ← Position.advance_append, ← Position.advance_append,
      List.append_assoc]

theorem Inside.request (inside : l.Inside text) : ∃ start, Request text l start := by
  have before := inside.stands
  have after := inside.next.stands
  obtain ⟨passed, whole, position⟩ := inside
  obtain ⟨read, left, located, -, nonempty⟩ := l.exists_read
  have blank : ∀ c ∈ l.rest.takeWhile Text.isBlank, Text.isBlank c = true := fun c mem =>
    List.mem_takeWhile_imp mem
  have split := l.rest.takeWhile_append_dropWhile (p := Text.isBlank)
  generalize l.rest.takeWhile Text.isBlank = blanks at located blank split
  have ahead : text = (passed ++ blanks) ++ l.rest.dropWhile Text.isBlank := by
    rw [List.append_assoc, split]
    exact whole
  have here : l.cursor text = passed.length := cursor_of_append whole
  have there : l.next.2.cursor text = (passed ++ blanks ++ read).length := by
    apply cursor_of_append
    rw [List.append_assoc _ read, ← left]
    exact ahead
  refine ⟨(passed ++ blanks).length, before, after, ?_, ?_, ?_, ?_, ?_, ?_⟩
  · rw [here, List.length_append]
    exact Nat.le_add_right ..
  · have shorter := (List.prefix_append (passed ++ blanks) read).length_le
    rwa [← there] at shorter
  · intro i low high
    rw [here] at low
    rw [ahead]
    exact exists_getElem?_between blank low high
  · intro c found
    rw [ahead, List.getElem?_append_right (Nat.le_refl _), Nat.sub_self,
      ← List.head?_eq_getElem?] at found
    exact eq_false_of_head?_dropWhile found
  · rw [located, position, ← Position.advance_append, Position.advance_first, ahead,
      List.take_left]
  · intro token found ne
    have some := List.length_pos_iff.mpr (nonempty token found ne)
    rw [here, there, List.length_append, List.length_append]
    omega

/-- The blanks in front of a token can be skipped before. -/
theorem next_solid (l : Lexer) (s : Position) :
    Lexer.next ⟨l.rest.dropWhile Text.isBlank, l.position.advance (l.rest.takeWhile Text.isBlank),
      s⟩ = l.next := by
  cases solid : l.rest.dropWhile Text.isBlank with
  | nil => simp [Lexer.next, solid, Position.advance]
  | cons c text =>
    have first : c ∈ (l.rest.dropWhile Text.isBlank).head? := by rw [solid]; rfl
    have stop := eq_false_of_head?_dropWhile first
    simp [Lexer.next, solid, stop, Position.advance]

/-- A request that finds the end or no lexeme leaves the lexer where it was looking. -/
theorem next_next (settled : l.next.1 = .ok .eof ∨
      ∃ found position, l.next.1 = .error (.unexpectedChar found position)) :
    l.next.2.next = l.next := by
  have stays : l.next.2 = ⟨l.rest.dropWhile Text.isBlank,
      l.position.advance (l.rest.takeWhile Text.isBlank),
      l.position.advance (l.rest.takeWhile Text.isBlank)⟩ := by
    unfold next at settled ⊢
    dsimp only at settled ⊢
    split
    case h_1 none => rw [none]
    case h_2 c text some =>
      rw [some] at settled ⊢
      dsimp only at settled
      rw [length_of_settled settled]
      rfl
  rw [stays, next_solid]

/-! ### All requests -/

theorem after_succ (l : Lexer) (n : Nat) : l.after (n + 1) = l.next.2.after n := by
  induction n with
  | zero => rfl
  | succ n ih =>
    rw [after, ih]
    rfl

theorem Inside.after (inside : l.Inside text) (n : Nat) : (l.after n).Inside text := by
  induction n with
  | zero => exact inside
  | succ n ih => exact ih.next

theorem inside_ofString (query : String) : (ofString query).Inside query.toList :=
  ⟨[], rfl, rfl⟩

theorem next_after_of_settled {k n : Nat} (later : k ≤ n)
    (settled : l.answer k = .ok .eof ∨
      ∃ found position, l.answer k = .error (.unexpectedChar found position)) :
    (l.after n).next = (l.after k).next := by
  induction n, later using Nat.le_induction with
  | base => rfl
  | succ n later ih =>
    have again : (l.after n).next.2.next = (l.after n).next := by
      refine next_next ?_
      rw [ih]
      exact settled
    exact again.trans ih

/-- The tokens of a lexer are its answers up to the first error or the end. -/
theorem answers_of_tokens (l : Lexer) :
    ∃ words : List Token, words.length ≤ l.rest.length ∧
      (∀ i token, words[i]? = some token → l.answer i = .ok token ∧ token ≠ .eof) ∧
      (l.answer words.length = .ok .eof ∧
          l.tokens.toList.map (·.map Prod.fst) = .ok (words ++ [.eof]) ∨
        ∃ error, l.answer words.length = .error error ∧
          l.tokens.toList.map (·.map Prod.fst) = .error error) := by
  fun_induction Lexer.tokens l with
  | case1 l error after step =>
    refine ⟨[], Nat.zero_le _, ?_, Or.inr ⟨error, congrArg Prod.fst step, rfl⟩⟩
    intro i token found
    cases found
  | case2 l after step =>
    refine ⟨[], Nat.zero_le _, ?_, Or.inl ⟨congrArg Prod.fst step, rfl⟩⟩
    intro i token found
    cases found
  | case3 l token after step ne ih =>
    obtain ⟨words, few, answered, ending⟩ := ih
    have shorter := length_lt_of_next step ne
    have later (i : Nat) : l.answer (i + 1) = after.answer i := by
      rw [answer, after_succ, step]
      rfl
    refine ⟨token :: words, ?_, ?_, ?_⟩
    · rw [List.length_cons]
      omega
    · intro i word found
      cases i with
      | zero =>
        cases found
        exact ⟨congrArg Prod.fst step, ne⟩
      | succ i =>
        rw [later]
        exact answered i word found
    · rw [List.length_cons, later]
      rcases ending with ⟨eof, listed⟩ | ⟨error, failed, listed⟩
      · obtain ⟨located, read, same⟩ := map_eq_ok_iff.mp listed
        refine Or.inl ⟨eof, map_eq_ok_iff.mpr ⟨(token, after.tokenStart) :: located, ?_, ?_⟩⟩
        · exact map_eq_ok_iff.mpr ⟨located, read, rfl⟩
        · rw [List.map_cons, same]
          rfl
      · have unread := map_eq_error_iff.mp listed
        refine Or.inr ⟨error, failed, map_eq_error_iff.mpr ?_⟩
        exact map_eq_error_iff.mpr unread

end Lexer

/-- Before and after every request the lexer stands in the query with the line and column of its
cursor, which a request moves to the first character that is no blank and from there on past a token.
Requests after the end or an unexpected character repeat the answer. The tokens of a query are the
answers up to the end or the first error, and there are at most as many as characters. -/
theorem requests_of_query (query : String) :
    (∀ n, ∃ start, Lexer.Request query.toList ((Lexer.ofString query).after n) start) ∧
    (∀ k n, k ≤ n →
      (Lexer.ofString query).answer k = .ok .eof ∨
        (∃ found position,
          (Lexer.ofString query).answer k = .error (.unexpectedChar found position)) →
      (Lexer.ofString query).answer n = (Lexer.ofString query).answer k ∧
        ((Lexer.ofString query).after (n + 1)).tokenStart =
          ((Lexer.ofString query).after (k + 1)).tokenStart) ∧
    ∃ words : List Token, words.length ≤ query.length ∧
      (∀ i token, words[i]? = some token →
        (Lexer.ofString query).answer i = .ok token ∧ token ≠ .eof) ∧
      ((Lexer.ofString query).answer words.length = .ok .eof ∧
          tokenize query = .ok (words ++ [.eof]) ∨
        ∃ error, (Lexer.ofString query).answer words.length = .error error ∧
          tokenize query = .error error) := by
  refine ⟨fun n => ((Lexer.inside_ofString query).after n).request, ?_, ?_⟩
  · intro k n later settled
    have same := Lexer.next_after_of_settled later settled
    exact ⟨congrArg Prod.fst same, congrArg (fun l => l.2.tokenStart) same⟩
  · exact (Lexer.ofString query).answers_of_tokens

theorem requests_of_query_unexpected :
    (∃ start, Lexer.Request "(\n ?".toList ((Lexer.ofString "(\n ?").after 1) start ∧
      ((Lexer.ofString "(\n ?").after 0).cursor "(\n ?".toList <
        ((Lexer.ofString "(\n ?").after 1).cursor "(\n ?".toList) ∧
    (Lexer.ofString "(\n ?").answer 1 = .error (.unexpectedChar '?' ⟨2, 2⟩) ∧
    (Lexer.ofString "(\n ?").answer 6 = .error (.unexpectedChar '?' ⟨2, 2⟩) ∧
    ((Lexer.ofString "(\n ?").after 7).tokenStart =
      ((Lexer.ofString "(\n ?").after 2).tokenStart := by
  obtain ⟨requests, settled, -⟩ := requests_of_query "(\n ?"
  have unexpected : (Lexer.ofString "(\n ?").answer 1 = .error (.unexpectedChar '?' ⟨2, 2⟩) := by
    cbv
  obtain ⟨start, second⟩ := requests 1
  obtain ⟨_, first⟩ := requests 0
  have same := settled 1 6 (by decide) (Or.inr ⟨_, _, unexpected⟩)
  refine ⟨⟨start, second, first.taken .lparen ?_ (by decide)⟩, unexpected, ?_, same.2⟩
  · cbv
  · rw [same.1, unexpected]

end JsonQuery.Query
