import JsonQuery.Proofs.Query.Binding
import JsonQuery.Proofs.Query.Spelling

/-!
# Layouts

A query that can be read is a `Layout`: lexemes with blanks between them, where two lexemes that
would be read as one are kept apart. Its tokens are those of the lexemes, whatever the blanks are,
and no other query can be read. So blanks change neither the tree nor the compiled expression.
-/

namespace JsonQuery.Query

namespace Spelling

/-- The second lexeme would be read as a part of the first if nothing stood between them. -/
def Clings : Spelling → Spelling → Prop
  | word .., word .. | word .., digits .. | digits .., digits .. => True
  | _, _ => False

instance : (s t : Spelling) → Decidable (s.Clings t)
  | word .., word .. | word .., digits .. | digits .., digits .. => isTrue trivial
  | word .., lparen | word .., rparen | word .., string _ => isFalse id
  | digits .., lparen | digits .., rparen | digits .., word .. | digits .., string _ => isFalse id
  | lparen, _ | rparen, _ | string _, _ => isFalse id

end Spelling

/-- Blanks, and then lexemes each with the blanks behind it. -/
structure Layout where
  leading : List Char
  lexemes : List (Spelling × List Char)
  leading_blank : ∀ c ∈ leading, Text.isBlank c = true
  blank : ∀ x ∈ lexemes, ∀ c ∈ x.2, Text.isBlank c = true
  apart : lexemes.IsChain fun x y => x.1.Clings y.1 → x.2 ≠ []

namespace Layout

def body (lexemes : List (Spelling × List Char)) : List Char :=
  lexemes.flatMap fun x => x.1.text ++ x.2

def text (l : Layout) : List Char := l.leading ++ body l.lexemes

def spellings (l : Layout) : List Spelling := l.lexemes.map Prod.fst

def tokens (l : Layout) : List Token := l.spellings.map Spelling.token

end Layout

/-! ### Where a lexeme ends -/

theorem isAlphanum_eq_false_of_isBlank {c : Char} (blank : Text.isBlank c = true) :
    c.isAlphanum = false := by
  refine Bool.eq_false_iff.mpr fun alphanum => ?_
  have solid : Text.isBlank c = false := by
    rcases Bool.or_eq_true_iff.mp alphanum with alpha | digit
    · have bounds := toNat_of_isAlpha alpha
      exact isBlank_eq_false (by omega) (by omega)
    · have bounds := toNat_of_isDigit digit
      exact isBlank_eq_false (by omega) (by omega)
  rw [solid] at blank
  cases blank

namespace Spelling

theorem ends_nil (s : Spelling) : s.Ends [] := by
  cases s with
  | word => exact nofun
  | digits => exact nofun
  | _ => trivial

theorem ends_blank (s : Spelling) {c : Char} (blank : Text.isBlank c = true) (more : List Char) :
    s.Ends (c :: more) := by
  have other := isAlphanum_eq_false_of_isBlank blank
  cases s with
  | word => exact fun d first => Option.some.inj first ▸ other
  | digits => exact fun d first => Option.some.inj first ▸ (Bool.or_eq_false_iff.mp other).2
  | _ => trivial

theorem ends_quote (s : Spelling) (more : List Char) : s.Ends ('"' :: more) := by
  cases s with
  | word => exact fun d first => Option.some.inj first ▸ rfl
  | digits => exact fun d first => Option.some.inj first ▸ rfl
  | _ => trivial

theorem ends_append {s : Spelling} {text more : List Char} (ends : s.Ends text)
    (free : s.Ends more) : s.Ends (text ++ more) := by
  cases text with
  | nil => exact free
  | cons c rest => cases s <;> exact ends

theorem ends_of_append {s : Spelling} {text more : List Char}
    (ends : s.Ends (text ++ more)) : s.Ends text := by
  cases text with
  | nil => exact s.ends_nil
  | cons c rest => cases s <;> exact ends

theorem ends_text_iff (s t : Spelling) (more : List Char) :
    s.Ends (t.text ++ more) ↔ ¬s.Clings t := by
  have here {p : Char → Bool} {c : Char} {rest : List Char} (other : p c = false) :
      ∀ d ∈ (c :: rest).head?, p d = false := fun d first => Option.some.inj first ▸ other
  cases s with
  | lparen => exact iff_of_true trivial id
  | rparen => exact iff_of_true trivial id
  | string => exact iff_of_true trivial id
  | word =>
    cases t with
    | lparen => exact iff_of_true (here rfl) id
    | rparen => exact iff_of_true (here rfl) id
    | string => exact iff_of_true (here rfl) id
    | word first rest alpha =>
      refine iff_of_false (fun ends => ?_) (fun free => free trivial)
      have other := ends first rfl
      rw [Char.isAlphanum, alpha] at other
      cases other
    | digits first rest all =>
      refine iff_of_false (fun ends => ?_) (fun free => free trivial)
      have other := ends first rfl
      rw [Char.isAlphanum, all first List.mem_cons_self, Bool.or_true] at other
      cases other
  | digits =>
    cases t with
    | lparen => exact iff_of_true (here rfl) id
    | rparen => exact iff_of_true (here rfl) id
    | string => exact iff_of_true (here rfl) id
    | word first rest alpha =>
      have other : first.isDigit = false :=
        Bool.eq_false_iff.mpr fun digit => not_isAlpha_of_isDigit digit alpha
      exact iff_of_true (here other) id
    | digits first rest all =>
      refine iff_of_false (fun ends => ?_) (fun free => free trivial)
      have other := ends first rfl
      rw [all first List.mem_cons_self] at other
      cases other

/-- Behind blanks only the next lexeme could continue one, and only if there are no blanks. -/
theorem ends_iff (s : Spelling) {w : List Char} (blank : ∀ c ∈ w, Text.isBlank c = true)
    (lexemes : List (Spelling × List Char)) :
    s.Ends (w ++ Layout.body lexemes) ↔ ∀ y ∈ lexemes.head?, s.Clings y.1 → w ≠ [] := by
  cases w with
  | cons c w =>
    exact ⟨fun _ _ _ _ => List.cons_ne_nil c w,
      fun _ => s.ends_blank (blank c List.mem_cons_self) _⟩
  | nil =>
    cases lexemes with
    | nil => exact ⟨fun _ => nofun, fun _ => s.ends_nil⟩
    | cons y rest =>
      have ends := s.ends_text_iff y.1 (y.2 ++ Layout.body rest)
      rw [← List.append_assoc] at ends
      refine Iff.trans ends ⟨fun free z first clings => ?_, fun apart clings => ?_⟩
      · cases first
        exact absurd clings free
      · exact apart y rfl clings rfl

end Spelling

/-! ### Reading a layout -/

theorem next_spelling {t : Spelling} {more : List Char} (ends : t.Ends more) (p s : Position) :
    Lexer.next ⟨t.text ++ more, p, s⟩ = (.ok t.token, ⟨more, p.advance t.text, p⟩) := by
  obtain ⟨c, rest, same, solid, found⟩ := lexeme_spelling ends
  have step := Lexer.next_cons solid found p s
  rwa [← List.cons_append, ← same, List.drop_left, List.take_left] at step

/-- Lexemes are read one by one in front of anything that continues none of them. -/
theorem tokens_body {lexemes : List (Spelling × List Char)} {more : List Char}
    (blank : ∀ x ∈ lexemes, ∀ c ∈ x.2, Text.isBlank c = true)
    (apart : lexemes.IsChain fun x y => x.1.Clings y.1 → x.2 ≠ [])
    (free : ∀ t : Spelling, t.Ends more) (p s : Position) :
    ∃ located s', Lexer.tokens ⟨Layout.body lexemes ++ more, p, s⟩ =
        .append located (Lexer.tokens ⟨more, p.advance (Layout.body lexemes), s'⟩) ∧
      located.map Prod.fst = lexemes.map fun x => x.1.token := by
  induction lexemes generalizing p s with
  | nil => exact ⟨[], s, rfl, rfl⟩
  | cons x rest ih =>
    obtain ⟨here, there⟩ := List.forall_mem_cons.mp blank
    obtain ⟨next, others⟩ := List.isChain_cons.mp apart
    have ends : x.1.Ends (x.2 ++ Layout.body rest ++ more) :=
      Spelling.ends_append ((x.1.ends_iff here rest).mpr next) (free x.1)
    have step := next_spelling ends p s
    have blanks := Lexer.next_blanks here (Layout.body rest ++ more) (p.advance x.1.text) p
    rw [← List.append_assoc, ← Position.advance_append] at blanks
    obtain ⟨located, s', read, words⟩ := ih there others (p.advance (x.1.text ++ x.2)) p
    have whole : Layout.body (x :: rest) ++ more =
        x.1.text ++ (x.2 ++ Layout.body rest ++ more) := by
      simp only [Layout.body, List.flatMap_cons, List.append_assoc]
    refine ⟨(x.1.token, p) :: located, s', ?_, congrArg (x.1.token :: ·) words⟩
    rw [whole, Lexer.tokens_of_next step x.1.token_ne_eof, Lexer.tokens_congr blanks, read,
      ← Position.advance_append]
    rfl

theorem tokens_layout (l : Layout) {more : List Char} (free : ∀ t : Spelling, t.Ends more)
    (p s : Position) :
    ∃ located s', Lexer.tokens ⟨l.text ++ more, p, s⟩ =
        .append located (Lexer.tokens ⟨more, p.advance l.text, s'⟩) ∧
      located.map Prod.fst = l.tokens := by
  obtain ⟨located, s', read, words⟩ := tokens_body l.blank l.apart free (p.advance l.leading) s
  refine ⟨located, s', ?_, ?_⟩
  · rw [Layout.text, List.append_assoc, Position.advance_append, ← read]
    exact Lexer.tokens_congr (Lexer.next_blanks l.leading_blank _ p s)
  · rw [words, Layout.tokens, Layout.spellings, List.map_map]
    rfl

theorem tokenize_text (l : Layout) :
    tokenize (String.ofList l.text) = .ok (l.tokens ++ [.eof]) := by
  apply tokenize_of_reads
  intro p s
  obtain ⟨located, s', read, words⟩ := tokens_layout l Spelling.ends_nil p s
  exact ⟨located, p.advance l.text, s', read, words⟩

/-! ### Every query that is read is a layout -/

namespace Layout

/-- Blanks and a lexeme in front of a layout that does not continue it. -/
def cons (w : List Char) (blank : ∀ c ∈ w, Text.isBlank c = true) (s : Spelling) (l : Layout)
    (ends : s.Ends l.text) : Layout where
  leading := w
  lexemes := (s, l.leading) :: l.lexemes
  leading_blank := blank
  blank := List.forall_mem_cons.mpr ⟨l.leading_blank, l.blank⟩
  apart := List.isChain_cons.mpr ⟨(s.ends_iff l.leading_blank l.lexemes).mp ends, l.apart⟩

theorem text_cons (l : Layout) (w : List Char) (blank : ∀ c ∈ w, Text.isBlank c = true)
    (s : Spelling) (ends : s.Ends l.text) :
    (cons w blank s l ends).text = w ++ (s.text ++ l.text) := by
  rw [text, text, cons, body, List.flatMap_cons, List.append_assoc s.text]
  rfl

def blanks (w : List Char) (blank : ∀ c ∈ w, Text.isBlank c = true) : Layout where
  leading := w
  lexemes := []
  leading_blank := blank
  blank := List.forall_mem_nil _
  apart := List.isChain_nil

theorem text_blanks (w : List Char) (blank : ∀ c ∈ w, Text.isBlank c = true) :
    (blanks w blank).text = w := List.append_nil w

end Layout

/-- The next token is the end behind blanks, or that of a lexeme behind blanks. -/
theorem Lexer.next_eq_ok_spelling {l after : Lexer} {token : Token}
    (h : l.next = (.ok token, after)) :
    ∃ w, (∀ c ∈ w, Text.isBlank c = true) ∧
      ((l.rest = w ∧ token = .eof) ∨
        ∃ s : Spelling, l.rest = w ++ (s.text ++ after.rest) ∧ s.Ends after.rest ∧
          token = s.token) := by
  refine ⟨l.rest.takeWhile Text.isBlank, fun c mem => List.mem_takeWhile_imp mem, ?_⟩
  have whole := l.rest.takeWhile_append_dropWhile (p := Text.isBlank)
  rcases Lexer.next_eq_ok h with ⟨none, rfl⟩ | ⟨c, text, some, read, left, -⟩
  · rw [none, List.append_nil] at whole
    exact .inl ⟨whole.symm, rfl⟩
  · obtain ⟨s, more, same, ends⟩ := spelling_of_lexeme read
    obtain ⟨c', rest, first, -, found⟩ := lexeme_spelling ends
    rw [first, List.cons_append] at same
    obtain ⟨rfl, rfl⟩ := List.cons.inj same
    rw [found] at read left
    rw [← List.cons_append, ← first, List.drop_left] at left
    cases read
    refine .inr ⟨s, ?_, left ▸ ends, rfl⟩
    rw [left, first, List.cons_append, ← some, whole]

theorem layout_of_tokens {l : Lexer} {located : List (Token × Position)}
    (h : l.tokens.toList = .ok located) :
    ∃ layout : Layout, l.rest = layout.text ∧
      located.map Prod.fst = layout.tokens ++ [.eof] := by
  fun_induction Lexer.tokens l generalizing located with
  | case1 => cases h
  | case2 l after step =>
    cases h
    obtain ⟨w, blank, ⟨rest, -⟩ | ⟨s, -, -, eof⟩⟩ := Lexer.next_eq_ok_spelling step
    · exact ⟨.blanks w blank, rest.trans (List.append_nil w).symm, rfl⟩
    · exact absurd eof.symm s.token_ne_eof
  | case3 l token after step ne ih =>
    obtain ⟨w, blank, ⟨-, eof⟩ | ⟨s, rest, ends, rfl⟩⟩ := Lexer.next_eq_ok_spelling step
    · exact absurd eof ne
    · obtain ⟨more, found, rfl⟩ := map_eq_ok_iff.mp h
      obtain ⟨layout, same, words⟩ := ih found
      rw [same] at ends rest
      exact ⟨.cons w blank s layout ends, rest.trans (layout.text_cons w blank s ends).symm,
        congrArg (s.token :: ·) words⟩

theorem layout_of_tokenize {query : String} {tokens : List Token}
    (h : tokenize query = .ok tokens) :
    ∃ layout : Layout, query.toList = layout.text ∧ tokens = layout.tokens ++ [.eof] := by
  obtain ⟨located, listed, rfl⟩ := map_eq_ok_iff.mp h
  exact layout_of_tokens listed

/-! ### Blanks change nothing -/

theorem parse_of_tokenize_eq {a b : String} (same : tokenize a = tokenize b) {node : Node}
    (h : parse a = .ok node) : parse b = .ok node := by
  obtain ⟨tokens, lexed, derived, small⟩ := derives_of_parse h
  exact parse_of_derives (same ▸ lexed) derived small

theorem compileWith_of_tokenize_eq {a b : String} (same : tokenize a = tokenize b)
    {registry : Registry} {e : Expression} (h : compileWith registry a = .ok e) :
    compileWith registry b = .ok e := by
  obtain ⟨node, parsed, bound⟩ := compileWith_eq_ok_iff.mp h
  exact compileWith_eq_ok_iff.mpr ⟨node, parse_of_tokenize_eq same parsed, bound⟩

/-- The queries whose tokens can be read are the layouts, and their tokens are those of the lexemes.
So two layouts of the same lexemes have the same tree and the same compiled expression, if any. -/
theorem tokenize_layout :
    (∀ layout : Layout,
      tokenize (String.ofList layout.text) = .ok (layout.tokens ++ [.eof])) ∧
    (∀ query all, tokenize query = .ok all →
      ∃ layout : Layout, query.toList = layout.text ∧ all = layout.tokens ++ [.eof]) ∧
    ∀ a b : Layout, a.spellings = b.spellings →
      (∀ node, parse (String.ofList a.text) = .ok node ↔
        parse (String.ofList b.text) = .ok node) ∧
      ∀ registry e, compileWith registry (String.ofList a.text) = .ok e ↔
        compileWith registry (String.ofList b.text) = .ok e := by
  refine ⟨tokenize_text, fun query all => layout_of_tokenize, fun a b spelled => ?_⟩
  have same : tokenize (String.ofList a.text) = tokenize (String.ofList b.text) := by
    rw [tokenize_text, tokenize_text, Layout.tokens, spelled, Layout.tokens]
  exact ⟨fun node => ⟨parse_of_tokenize_eq same, parse_of_tokenize_eq same.symm⟩,
    fun registry e =>
      ⟨compileWith_of_tokenize_eq same, compileWith_of_tokenize_eq same.symm⟩⟩

namespace Layout

def eqName : Spelling := .word 'e' ['q'] rfl (by simp)

def sevenDigits : Spelling := .digits '0' ['0', '7'] (by simp) (by decide)

def quotedX : Spelling := .string [.plain 'x' (by decide) (by decide)]

/-- Of these lexemes only the name and the digits must be kept apart. -/
def packed : Layout where
  leading := []
  lexemes := [(.lparen, []), (eqName, [' ']), (sevenDigits, []), (quotedX, []), (.rparen, [])]
  leading_blank := List.forall_mem_nil _
  blank := by simp [Text.isBlank, Text.blankRanges]
  apart := by decide

/-- The same lexemes with blanks wherever they may stand. -/
def spread : Layout where
  leading := ['\n']
  lexemes := [(.lparen, [' ']), (eqName, ['\u2003', '\t']), (sevenDigits, ['\n']),
    (quotedX, ['\u00a0']), (.rparen, [' '])]
  leading_blank := by simp [Text.isBlank, Text.blankRanges]
  blank := by simp [Text.isBlank, Text.blankRanges]
  apart := by decide

end Layout

theorem tokenize_layout_packed :
    tokenize "(eq 007\"x\")" = .ok [.lparen, .identifier "eq", .literal (.integer 7),
      .literal (.string "x"), .rparen, .eof] ∧
    (∀ node, parse "(eq 007\"x\")" = .ok node ↔
      parse "\n( eq\u2003\t007\n\"x\"\u00a0) " = .ok node) ∧
    ∀ e, compile "(eq 007\"x\")" = .ok e ↔ compile "\n( eq\u2003\t007\n\"x\"\u00a0) " = .ok e := by
  have packedText : String.ofList Layout.packed.text = "(eq 007\"x\")" := by decide +kernel
  have spreadText : String.ofList Layout.spread.text = "\n( eq\u2003\t007\n\"x\"\u00a0) " := by
    decide +kernel
  have words : Layout.packed.tokens ++ [.eof] = [.lparen, .identifier "eq", .literal (.integer 7),
      .literal (.string "x"), .rparen, .eof] := by decide +kernel
  have read := tokenize_layout.1 .packed
  have respaced := tokenize_layout.2.2 .packed .spread rfl
  rw [packedText, words] at read
  rw [packedText, spreadText] at respaced
  exact ⟨read, respaced.1, respaced.2 .standard⟩

end JsonQuery.Query
