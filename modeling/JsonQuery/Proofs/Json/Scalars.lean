import JsonQuery.Proofs.Json.Literals
import JsonQuery.Proofs.Json.Numerals

/-!
# Reading scalars

`Reader.feed` reads a text. A number or a word is over only when something follows that ends it, so
the reader is compared with the one that has settled the value already: `Agrees` says that the two
go on alike. `Settles text v` says that any reader that expects a value and is fed the text agrees
with the one that has settled `v`.
-/

namespace JsonQuery.Json

namespace Reader

def feed (r : Reader) (text : List Char) : Reader := (bytesOf text).foldl step r

theorem feed_nil (r : Reader) : r.feed [] = r := rfl

theorem feed_append (r : Reader) (a b : List Char) : r.feed (a ++ b) = (r.feed a).feed b := by
  rw [feed, bytesOf_append, List.foldl_append]
  rfl

theorem feed_cons {c : Char} (ascii : c.toNat < 128) (r : Reader) (text : List Char) :
    r.feed (c :: text) = (r.step c.toUInt8).feed text := by
  rw [feed, bytesOf_cons, utf8EncodeChar_ascii ascii]
  rfl

/-- What may follow a value in printed text. -/
def Ends (c : Char) : Prop := c = ',' ∨ c = ']' ∨ c = '}' ∨ c = '\n'

theorem Ends.ascii {c : Char} (h : Ends c) : c.toNat < 128 := by
  rcases h with rfl | rfl | rfl | rfl <;> decide

/-- The readers go on alike after a value. -/
structure Agrees (r settled : Reader) : Prop where
  step {c : Char} (h : Ends c) : r.step c.toUInt8 = settled.step c.toUInt8
  finish : r.finish = settled.finish

theorem Agrees.refl (r : Reader) : r.Agrees r := ⟨fun _ => rfl, rfl⟩

theorem Agrees.feed {r settled : Reader} (h : r.Agrees settled) {c : Char} (ends : Ends c)
    (text : List Char) : r.feed (c :: text) = settled.feed (c :: text) := by
  rw [feed_cons ends.ascii, feed_cons ends.ascii, h.step ends]

/-- The value that the text stands for, whatever is around it. The text starts with a character
that a value can start with, and `nesting` containers open inside it at most. -/
def Settles (text : List Char) (v : Value) (nesting : Nat) : Prop :=
  ∃ c rest, text = c :: rest ∧ c.toNat < 128 ∧ isSpace c = false ∧ c ≠ ']' ∧
    ∀ r : Reader, r.stack.length + nesting ≤ maxDepth →
      Agrees ((r.begin c).feed rest) (r.settle v)

/-- What comes of the text of a value where one is expected. -/
def take (r : Reader) : List Char → Reader
  | [] => r
  | c :: rest => (r.begin c).feed rest

/-- The text starts as a value does. -/
def Opens (text : List Char) : Prop :=
  ∃ c rest, text = c :: rest ∧ c.toNat < 128 ∧ isSpace c = false ∧ c ≠ ']'

theorem Settles.opens {text : List Char} {v : Value} {n : Nat} (h : Settles text v n) :
    Opens text := by
  obtain ⟨c, rest, same, ascii, space, bracket, -⟩ := h
  exact ⟨c, rest, same, ascii, space, bracket⟩

theorem Settles.take {text : List Char} {v : Value} {n : Nat} (h : Settles text v n) {r : Reader}
    (room : r.stack.length + n ≤ maxDepth) : (r.take text).Agrees (r.settle v) := by
  obtain ⟨c, rest, rfl, -, -, -, settles⟩ := h
  exact settles r room

theorem Opens.settles {text : List Char} (opens : Opens text) {v : Value} {n : Nat}
    (agrees : ∀ r : Reader, r.stack.length + n ≤ maxDepth → (r.take text).Agrees (r.settle v)) :
    Settles text v n := by
  obtain ⟨c, rest, rfl, ascii, space, bracket⟩ := opens
  exact ⟨c, rest, rfl, ascii, space, bracket, agrees⟩

theorem Settles.mono {text : List Char} {v : Value} {n m : Nat} (h : Settles text v n)
    (le : n ≤ m) : Settles text v m := by
  obtain ⟨c, rest, same, ascii, space, bracket, settles⟩ := h
  exact ⟨c, rest, same, ascii, space, bracket, fun r room => settles r (by omega)⟩

/-- A reader that waits for a value takes a text that opens one. -/
theorem feed_opens {text : List Char} (opens : Opens text) {r : Reader}
    (waits : r.mode = .between ∨ r.mode = .value) : r.feed text = r.take text := by
  obtain ⟨c, rest, rfl, ascii, space, -⟩ := opens
  rw [feed_cons ascii]
  rcases waits with mode | mode <;>
    · simp only [step, mode, ofUInt8_toUInt8 ascii, space, Bool.false_eq_true, if_false]
      rfl

/-! ### Words -/

theorem step_word (r : Reader) (expected : Char) (left : List Char) (v : Value)
    (ascii : expected.toNat < 128) :
    step { r with mode := .word (expected :: left) v } expected.toUInt8 =
      { r with mode := .word left v } := by
  simp only [step, ofUInt8_toUInt8 ascii, if_true]

theorem feed_word (r : Reader) (left : List Char) (v : Value) (ascii : ∀ c ∈ left, c.toNat < 128) :
    feed { r with mode := .word left v } left = { r with mode := .word [] v } := by
  induction left with
  | nil => rfl
  | cons expected left ih =>
    obtain ⟨here, there⟩ := List.forall_mem_cons.mp ascii
    rw [feed_cons here, step_word r expected left v here]
    exact ih there

theorem step_after (r : Reader) (v : Value) {c : Char} (ends : Ends c) (mode : Mode) :
    stepAfter { r with mode } v c = (r.settle v).step c.toUInt8 := by
  obtain ⟨values, stack, other⟩ := r
  unfold stepAfter settle
  cases stack with
  | nil => rcases ends with rfl | rfl | rfl | rfl <;> rfl
  | cons frame rest => rcases ends with rfl | rfl | rfl | rfl <;> rfl

theorem agrees_word (r : Reader) (v : Value) :
    Agrees { r with mode := .word [] v } (r.settle v) := by
  refine ⟨fun {c} ends => ?_, ?_⟩
  · rw [← step_after r v ends (.word [] v), step, ofUInt8_toUInt8 ends.ascii]
  · obtain ⟨values, stack, mode⟩ := r
    cases stack with
    | nil => rfl
    | cons frame rest => simp [finish, Mode.ending, lastValue, settle, Frame.unclosed_place]

theorem settles_word {c : Char} {left : List Char} {v : Value} (first : c.toNat < 128)
    (ascii : ∀ d ∈ left, d.toNat < 128) (space : isSpace c = false) (bracket : c ≠ ']')
    (word : ∀ r : Reader, r.begin c = { r with mode := .word left v }) :
    Settles (c :: left) v 0 := by
  refine ⟨c, left, rfl, first, space, bracket, fun r _ => ?_⟩
  rw [word r, feed_word r left v ascii]
  exact agrees_word r v

theorem settles_null : Settles "null".toList .null 0 := by
  have text : "null".toList = ['n', 'u', 'l', 'l'] := by decide
  rw [text]
  exact settles_word (by decide) (by simp) rfl (by decide) fun _ => rfl

theorem settles_true : Settles "true".toList (.boolean true) 0 := by
  have text : "true".toList = ['t', 'r', 'u', 'e'] := by decide
  rw [text]
  exact settles_word (by decide) (by simp) rfl (by decide) fun _ => rfl

theorem settles_false : Settles "false".toList (.boolean false) 0 := by
  have text : "false".toList = ['f', 'a', 'l', 's', 'e'] := by decide
  rw [text]
  exact settles_word (by decide) (by simp) rfl (by decide) fun _ => rfl

/-! ### Numbers -/

theorem step_number {n next : Numeral} {c : Char} (ascii : c.toNat < 128)
    (push : n.push? c = some next) (fits : next.overflows = false) (r : Reader) :
    step { r with mode := .number n } c.toUInt8 = { r with mode := .number next } := by
  simp [step, ofUInt8_toUInt8 ascii, push, fits]

theorem feed_number {n last : Numeral} {text : List Char} (ascii : ∀ c ∈ text, c.toNat < 128)
    (push : n.pushAll? text = some last) (r : Reader) :
    feed { r with mode := .number n } text = { r with mode := .number last } := by
  induction text generalizing n with
  | nil =>
    cases push
    rfl
  | cons c text ih =>
    obtain ⟨here, there⟩ := List.forall_mem_cons.mp ascii
    obtain ⟨next, first, fits, others⟩ := Numeral.pushAll?_cons_eq_some_iff.mp push
    rw [feed_cons here, step_number here first fits r]
    exact ih there others

theorem push?_ends {c : Char} (ends : Ends c) (n : Numeral) : n.push? c = none := by
  obtain ⟨negative, phase, significand, scale, shrinks, exponent⟩ := n
  rcases ends with rfl | rfl | rfl | rfl <;> cases phase <;> rfl

theorem endsBefore_ends {c : Char} (ends : Ends c) (n : Numeral) :
    n.endsBefore c = n.isComplete := by
  have digit : c.isDigit = false := by
    rcases ends with rfl | rfl | rfl | rfl <;> rfl
  rw [Numeral.endsBefore, digit, Bool.and_false, Bool.not_false, Bool.and_true]

theorem agrees_number {n : Numeral} {x : Float} (complete : n.isComplete = true)
    (value : n.value? = some x) (r : Reader) :
    Agrees { r with mode := .number n } (r.settle (.float x)) := by
  refine ⟨fun {c} ends => ?_, ?_⟩
  · rw [← step_after r (.float x) ends (.number n)]
    simp only [step, ofUInt8_toUInt8 ends.ascii, push?_ends ends, endsBefore_ends ends, complete,
    value]
  · obtain ⟨values, stack, mode⟩ := r
    cases stack <;>
      simp [finish, Mode.ending, lastValue, settle, complete, value, Frame.unclosed_place]

theorem begin_numeric {c : Char} (numeric : isNumeric c = true) (r : Reader) :
    r.begin c = match Numeral.start? c with
      | some numeral => { r with mode := .number numeral }
      | none => r.fail (r.unexpected c) := by
  unfold begin
  split
  case h_7 => rfl
  all_goals exact absurd numeric (by decide)

theorem isNumeric_cases {c : Char} (numeric : isNumeric c = true) :
    c.isDigit = true ∨ c = '-' ∨ c = '.' := by
  simpa only [isNumeric, Bool.or_eq_true, decide_eq_true_eq, or_assoc] using numeric

theorem isNumeric_ascii {c : Char} (numeric : isNumeric c = true) : c.toNat < 128 := by
  rcases isNumeric_cases numeric with digit | rfl | rfl
  · have high := (Char.isDigit_iff_toNat.mp digit).2
    have nine : '9'.toNat = 57 := rfl
    omega
  · decide
  · decide

theorem delimits_numeric {c : Char} (numeric : isNumeric c = true) : delimits c = false := by
  cases delimiter : delimits c with
  | false => rfl
  | true =>
    simp only [delimits, isSpace, Bool.or_eq_true, decide_eq_true_eq, or_assoc] at delimiter
    rcases delimiter with rfl | rfl | rfl | rfl | rfl | rfl | rfl | rfl | rfl | rfl | rfl <;>
      exact absurd numeric (by decide)

theorem isSpace_of_delimits {c : Char} (h : delimits c = false) : isSpace c = false := by
  cases space : isSpace c with
  | false => rfl
  | true => simp [delimits, space] at h

theorem opens_numeric {text : List Char} (numeric : ∀ c ∈ text, isNumeric c = true)
    (nonempty : text ≠ []) : Opens text := by
  obtain ⟨c, rest, rfl⟩ := List.exists_cons_of_ne_nil nonempty
  have here := numeric c List.mem_cons_self
  have solid := delimits_numeric here
  refine ⟨c, rest, rfl, isNumeric_ascii here, isSpace_of_delimits solid, ?_⟩
  rintro rfl
  cases solid

theorem settles_number {text : List Char} {x : Float} (numeric : ∀ c ∈ text, isNumeric c = true)
    (spells : Numeral.Spells text x) : Settles text (.float x) 0 := by
  obtain ⟨c, rest, first, last, rfl, start, push, complete, value⟩ := spells
  obtain ⟨here, there⟩ := List.forall_mem_cons.mp numeric
  refine (opens_numeric numeric nofun).settles fun r _ => ?_
  rw [take, begin_numeric here, start]
  dsimp only
  rw [feed_number (fun d mem => isNumeric_ascii (there d mem)) push]
  exact agrees_number complete value r

end Reader

end JsonQuery.Json
