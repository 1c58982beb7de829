import JsonQuery.Proofs.Json.Containers

/-!
# Readers that survive

A reader that has failed stays so. What is known of a reader that is still alive after a printed
value is the converse of `Settles`: there was room for the containers in it, and all its scalars are
read (`Demands`).
-/

namespace JsonQuery.Json

namespace Reader

/-- Nothing was wrong with what has been read. -/
def Alive (r : Reader) : Prop := r.hasFailed = false

theorem not_alive_fail (r : Reader) (problem : Problem) : ¬(r.fail problem).Alive := nofun

theorem Alive.of_feed {r : Reader} {text : List Char} (alive : (r.feed text).Alive) : r.Alive :=
  hasFailed_of_foldl alive

theorem Alive.of_step {r : Reader} {c : Char} (ascii : c.toNat < 128)
    (alive : (r.step c.toUInt8).Alive) : r.Alive := by
  rw [← feed_nil (r.step c.toUInt8), ← feed_cons ascii] at alive
  exact alive.of_feed

theorem alive_of_finish {r : Reader} {values : List Value} (h : r.finish = (values, none)) :
    r.Alive := by
  obtain ⟨all, stack, mode⟩ := r
  cases mode with
  | failed problem => cases h
  | _ => rfl

/-! ### Numbers -/

theorem step_misfit {n : Numeral} {c : Char} (numeric : isNumeric c = true)
    (push : n.push? c = none) (r : Reader) :
    ¬(step { r with mode := .number n } c.toUInt8).Alive := by
  have solid := delimits_numeric numeric
  have space := isSpace_of_delimits solid
  have after (v : Value) : ¬(stepAfter { r with mode := .number n } v c).Alive := by
    unfold stepAfter
    split
    · rw [if_neg (by simp [space]), if_neg (by simp [solid])]
      exact not_alive_fail _ _
    · unfold stepNext
      split
      case h_5 =>
        rw [if_neg (by simp [space])]
        exact not_alive_fail _ _
      all_goals cases solid
  simp only [step, ofUInt8_toUInt8 (isNumeric_ascii numeric), push]
  split
  · exact after _
  · exact not_alive_fail _ _
  · exact not_alive_fail _ _

/-- A text of number characters that a reader survives is one number. -/
theorem number_of_alive {text : List Char} (numeric : ∀ c ∈ text, isNumeric c = true) (n : Numeral)
    {r : Reader} (alive : (feed { r with mode := .number n } text).Alive) :
    ∃ last, n.pushAll? text = some last ∧
      feed { r with mode := .number n } text = { r with mode := .number last } := by
  induction text generalizing n with
  | nil => exact ⟨n, rfl, rfl⟩
  | cons c text ih =>
    obtain ⟨here, there⟩ := List.forall_mem_cons.mp numeric
    have ascii := isNumeric_ascii here
    rw [feed_cons ascii] at alive ⊢
    cases push : n.push? c with
    | some next =>
      cases overflows : next.overflows with
      | true =>
        simp only [step, ofUInt8_toUInt8 ascii, push, overflows, if_true] at alive
        exact absurd alive.of_feed (not_alive_fail _ _)
      | false =>
        rw [step_number ascii push overflows r] at alive ⊢
        obtain ⟨last, pushed, fed⟩ := ih there next alive
        exact ⟨last, Numeral.pushAll?_cons_eq_some_iff.mpr ⟨next, push, overflows, pushed⟩, fed⟩
    | none => exact absurd alive.of_feed (step_misfit here push r)

theorem take_numeric {text : List Char} (numeric : ∀ c ∈ text, isNumeric c = true)
    (nonempty : text ≠ []) {r : Reader} (alive : (r.take text).Alive) :
    ∃ c rest first last, text = c :: rest ∧ Numeral.start? c = some first ∧
      first.pushAll? rest = some last ∧ r.take text = { r with mode := .number last } := by
  obtain ⟨c, rest, rfl⟩ := List.exists_cons_of_ne_nil nonempty
  obtain ⟨here, there⟩ := List.forall_mem_cons.mp numeric
  rw [take, begin_numeric here] at alive ⊢
  cases start : Numeral.start? c with
  | none =>
    rw [start] at alive
    exact absurd alive.of_feed (not_alive_fail _ _)
  | some first =>
    rw [start] at alive
    obtain ⟨last, pushed, fed⟩ := number_of_alive there first alive
    exact ⟨c, rest, first, last, rfl, start, pushed, fed⟩

/-- What ends the number shows whether it is one. -/
theorem spells_of_alive {text : List Char} (numeric : ∀ c ∈ text, isNumeric c = true)
    (nonempty : text ≠ []) {r : Reader} {c : Char} (ends : Ends c)
    (alive : ((r.take text).step c.toUInt8).Alive) : ∃ x, Numeral.Spells text x := by
  obtain ⟨first, rest, start, last, same, started, pushed, taken⟩ :=
    take_numeric numeric nonempty (alive.of_step ends.ascii)
  rw [taken] at alive
  simp only [step, ofUInt8_toUInt8 ends.ascii, push?_ends ends, endsBefore_ends ends] at alive
  split at alive
  case h_1 x complete value =>
    exact ⟨x, first, rest, start, last, same, started, pushed, complete, value⟩
  all_goals exact absurd alive (not_alive_fail _ _)

/-! ### Containers -/

/-- A reader that survives the text and what ends it had room for the value of the text. -/
def Demands (text : List Char) (v : Value) (nesting : Nat) : Prop :=
  Opens text ∧ ∀ (r : Reader) (c : Char), r.stack.length ≤ maxDepth → Ends c →
    ((r.take text).step c.toUInt8).Alive →
      r.stack.length + nesting ≤ maxDepth ∧ Settles text v nesting

theorem Settles.demands {text : List Char} {v : Value} (h : Settles text v 0) :
    Demands text v 0 :=
  ⟨h.opens, fun _ _ room _ _ => ⟨room, h⟩⟩

theorem room_of_alive {r : Reader} {mode : Mode} (alive : (r.openContainer mode).Alive) :
    r.stack.length < maxDepth ∧ r.openContainer mode = { r with mode } := by
  unfold openContainer at alive ⊢
  split at alive
  case isTrue room => exact ⟨room, if_pos room⟩
  case isFalse => exact absurd alive (not_alive_fail _ _)

theorem ends_closing {style : Style} {level : Nat} {closing : Char} (ends : Ends closing) :
    ∃ c more, style.gap level ++ [closing] = c :: more ∧ Ends c := by
  unfold Style.gap
  split
  · exact ⟨'\n', _, rfl, .inr (.inr (.inr rfl))⟩
  · exact ⟨closing, [], rfl, ends⟩

/-- What follows a part of a container ends it. -/
theorem ends_parts {α : Type} (parts : List α) (text : α → List Char) (style : Style)
    (level : Nat) {closing : Char} (ends : Ends closing) :
    ∃ c more, (parts.flatMap fun part => ',' :: text part) ++ (style.gap level ++ [closing]) =
      c :: more ∧ Ends c := by
  cases parts with
  | nil => exact ends_closing ends
  | cons part parts => exact ⟨',', _, rfl, .inl rfl⟩

/-- The part in front is over, so its demand is met and the reader has settled it. -/
theorem Demands.meet {text more : List Char} {v : Value} {n : Nat} (h : Demands text v n)
    {r : Reader} (room : r.stack.length ≤ maxDepth) (ends : ∃ c rest, more = c :: rest ∧ Ends c)
    (alive : ((r.take text).feed more).Alive) :
    r.stack.length + n ≤ maxDepth ∧ Settles text v n ∧ (r.take text).Agrees (r.settle v) := by
  obtain ⟨c, rest, rfl, ends⟩ := ends
  rw [feed_cons ends.ascii] at alive
  obtain ⟨room, settles⟩ := h.2 r c room ends alive.of_feed
  exact ⟨room, settles, settles.take room⟩

theorem opens_enclose (style : Style) (level : Nat) {opening : Char} (closing : Char)
    (parts : List (List Char)) (ascii : opening.toNat < 128) (space : isSpace opening = false)
    (bracket : opening ≠ ']') : Opens (style.enclose level opening closing parts) := by
  cases parts with
  | nil => exact ⟨opening, [closing], rfl, ascii, space, bracket⟩
  | cons part parts => exact ⟨opening, _, enclose_cons .., ascii, space, bracket⟩

section Array

variable {α : Type} {text : α → List Char} {value : α → Value} {nesting : α → Nat}

theorem alive_items (style : Style) (level : Nat) (items : List α)
    (h : ∀ item ∈ items, Demands (text item) (value item) (nesting item)) {r : Reader}
    (room : r.stack.length + 1 ≤ maxDepth) {settled : Reader} {before : List Value}
    (agrees : settled.Agrees { r with mode := .next (.array before) })
    (alive : (settled.feed ((items.flatMap fun item =>
      ',' :: (style.gap (level + 1) ++ text item)) ++ (style.gap level ++ [']']))).Alive) :
    ∀ item ∈ items, r.stack.length + 1 + nesting item ≤ maxDepth ∧
      Settles (text item) (value item) (nesting item) := by
  induction items generalizing settled before with
  | nil => exact nofun
  | cons item items ih =>
    obtain ⟨here, there⟩ := List.forall_mem_cons.mp h
    have comma : step { r with mode := .next (.array before) } ','.toUInt8 =
        { r with stack := .array before :: r.stack, mode := .value } := rfl
    have skipped := feed_blanks (skips_value { r with stack := .array before :: r.stack })
      (fun c (mem : c ∈ style.gap (level + 1)) => isSpace_gap mem)
    have ends := ends_parts items (fun item => style.gap (level + 1) ++ text item) style level
      (.inr (.inl rfl) : Ends ']')
    rw [List.flatMap_cons, List.append_assoc, List.cons_append, agrees.feed (.inl rfl),
      feed_cons (by decide), comma, List.append_assoc, feed_append, skipped, feed_append,
      feed_opens here.1 (.inr rfl)] at alive
    obtain ⟨deep, settles, next⟩ := here.meet
      (r := { r with stack := .array before :: r.stack, mode := .value }) room ends alive
    exact List.forall_mem_cons.mpr ⟨⟨deep, settles⟩, ih there next alive⟩

theorem alive_array (style : Style) (level : Nat) (items : List α)
    (h : ∀ item ∈ items, Demands (text item) (value item) (nesting item)) {r : Reader}
    (alive : (r.take (style.enclose level '[' ']' (items.map text))).Alive) :
    r.stack.length + 1 ≤ maxDepth ∧
      ∀ item ∈ items, r.stack.length + 1 + nesting item ≤ maxDepth ∧
        Settles (text item) (value item) (nesting item) := by
  cases items with
  | nil => exact ⟨(room_of_alive alive.of_feed).1, nofun⟩
  | cons item items =>
    obtain ⟨here, there⟩ := List.forall_mem_cons.mp h
    rw [List.map_cons, enclose_cons, List.flatMap_map] at alive
    obtain ⟨room, opened⟩ := room_of_alive (alive.of_feed : (r.openContainer .firstItem).Alive)
    have skipped := feed_blanks (skips_firstItem r)
      (fun c (mem : c ∈ style.gap (level + 1)) => isSpace_gap mem)
    have ends := ends_parts items (fun item => style.gap (level + 1) ++ text item) style level
      (.inr (.inl rfl) : Ends ']')
    have begins : r.begin '[' = r.openContainer .firstItem := rfl
    rw [take, begins, opened, feed_append, skipped, feed_append, feed_firstItem here.1 r] at alive
    obtain ⟨deep, settles, next⟩ := here.meet
      (r := { r with stack := .array [] :: r.stack, mode := .firstItem }) room ends alive
    exact ⟨room, List.forall_mem_cons.mpr
      ⟨⟨deep, settles⟩, alive_items style level items there room next alive⟩⟩

end Array

section Object

variable {α : Type} {text : α → List Char} {value : α → Value} {nesting : α → Nat}

theorem alive_members {style : Style} (plain : style.color = false) (level : Nat)
    (fields : Entries α)
    (h : ∀ field ∈ fields, Demands (text field.2) (value field.2) (nesting field.2)) {r : Reader}
    (room : r.stack.length + 1 ≤ maxDepth) {settled : Reader} {table : Entries Value}
    (agrees : settled.Agrees { r with mode := .next (.object table) })
    (alive : (settled.feed ((fields.flatMap fun field =>
      ',' :: (style.gap (level + 1) ++ style.member (field.1, text field.2))) ++
        (style.gap level ++ ['\x7d']))).Alive) :
    ∀ field ∈ fields, r.stack.length + 1 + nesting field.2 ≤ maxDepth ∧
      Settles (text field.2) (value field.2) (nesting field.2) := by
  induction fields generalizing settled table with
  | nil => exact nofun
  | cons field fields ih =>
    obtain ⟨here, there⟩ := List.forall_mem_cons.mp h
    obtain ⟨tail, member, taken⟩ := take_member plain field.1 here.1 r table
    have comma : step { r with mode := .next (.object table) } ','.toUInt8 =
        { r with mode := .nextKey table } := rfl
    have opened : step { r with mode := .nextKey table } '"'.toUInt8 =
        { r with mode := .key table .opened } := rfl
    have skipped := feed_blanks (skips_nextKey r table)
      (fun c (mem : c ∈ style.gap (level + 1)) => isSpace_gap mem)
    have ends := ends_parts fields
      (fun field => style.gap (level + 1) ++ style.member (field.1, text field.2)) style level
      (.inr (.inr (.inl rfl)) : Ends '\x7d')
    rw [List.flatMap_cons, List.append_assoc, List.cons_append, agrees.feed (.inl rfl),
      feed_cons (by decide), comma, List.append_assoc, feed_append, skipped, member,
      List.cons_append, feed_cons (by decide), opened, feed_append, taken] at alive
    obtain ⟨deep, settles, next⟩ := here.meet
      (r := { r with stack := .object table field.1 :: r.stack, mode := .value }) room ends alive
    exact List.forall_mem_cons.mpr ⟨⟨deep, settles⟩, ih there next alive⟩

theorem alive_object {style : Style} (plain : style.color = false) (level : Nat)
    (fields : Entries α)
    (h : ∀ field ∈ fields, Demands (text field.2) (value field.2) (nesting field.2)) {r : Reader}
    (alive : (r.take (style.enclose level '\x7b' '\x7d'
      ((Entries.mapValues text fields).map style.member))).Alive) :
    r.stack.length + 1 ≤ maxDepth ∧
      ∀ field ∈ fields, r.stack.length + 1 + nesting field.2 ≤ maxDepth ∧
        Settles (text field.2) (value field.2) (nesting field.2) := by
  cases fields with
  | nil => exact ⟨(room_of_alive alive.of_feed).1, nofun⟩
  | cons field fields =>
    obtain ⟨here, there⟩ := List.forall_mem_cons.mp h
    obtain ⟨tail, member, taken⟩ := take_member plain field.1 here.1 r []
    have first : step { r with mode := .firstKey } '"'.toUInt8 =
        { r with mode := .key [] .opened } := rfl
    have skipped := feed_blanks (skips_firstKey r)
      (fun c (mem : c ∈ style.gap (level + 1)) => isSpace_gap mem)
    have ends := ends_parts fields
      (fun field => style.gap (level + 1) ++ style.member (field.1, text field.2)) style level
      (.inr (.inr (.inl rfl)) : Ends '\x7d')
    have begins : r.begin '\x7b' = r.openContainer .firstKey := rfl
    rw [Entries.mapValues_cons, List.map_cons, enclose_cons, Entries.mapValues, List.map_map,
      List.flatMap_map] at alive
    obtain ⟨room, opened⟩ := room_of_alive (alive.of_feed : (r.openContainer .firstKey).Alive)
    rw [take, begins, opened, feed_append, skipped, member, List.cons_append,
      feed_cons (by decide), first, feed_append, taken] at alive
    obtain ⟨deep, settles, next⟩ := here.meet
      (r := { r with stack := .object [] field.1 :: r.stack, mode := .value }) room ends alive
    exact ⟨room, List.forall_mem_cons.mpr
      ⟨⟨deep, settles⟩, alive_members plain level fields there room next alive⟩⟩

end Object

end Reader

end JsonQuery.Json
