import JsonQuery.Proofs.Entries
import JsonQuery.Proofs.Json.Scalars

/-!
# Reading strings and containers

Printed containers are read back in either layout: blanks between the parts are skipped, each part
settles in the open container, and the closing bracket settles the container itself
(`settles_array`, `settles_object`).
-/

namespace JsonQuery.Json

/-! ### Layout -/

/-- What stands in front of a part on this level. -/
def Style.gap (style : Style) (level : Nat) : List Char :=
  if style.pretty then '\n' :: indent level else []

theorem intercalate_cons (separator part : List Char) (parts : List (List Char)) :
    List.intercalate separator (part :: parts) =
      part ++ parts.flatMap fun other => separator ++ other := by
  induction parts generalizing part with
  | nil => simp [List.intercalate]
  | cons other parts ih =>
    rw [List.intercalate_cons_cons, ih, List.flatMap_cons, List.append_assoc, List.append_assoc]

theorem enclose_cons (style : Style) (level : Nat) (opening closing : Char) (part : List Char)
    (parts : List (List Char)) :
    style.enclose level opening closing (part :: parts) =
      opening :: (style.gap (level + 1) ++ (part ++
        ((parts.flatMap fun other => ',' :: (style.gap (level + 1) ++ other)) ++
          (style.gap level ++ [closing])))) := by
  cases pretty : style.pretty with
  | true =>
    simp [Style.enclose, Style.gap, pretty, intercalate_cons, List.flatMap_map]
  | false => simp [Style.enclose, Style.gap, pretty, intercalate_cons]

theorem isSpace_gap {style : Style} {level : Nat} {c : Char} (mem : c ∈ style.gap level) :
    isSpace c = true := by
  unfold Style.gap at mem
  split at mem
  · rcases List.mem_cons.mp mem with rfl | mem
    · rfl
    · rw [(List.mem_replicate.mp mem).2]
      rfl
  · cases mem

namespace Reader

theorem isSpace_cases {c : Char} (space : isSpace c = true) :
    c = ' ' ∨ c = '\t' ∨ c = '\n' ∨ c = '\r' := by
  simpa only [isSpace, Bool.or_eq_true, decide_eq_true_eq, or_assoc] using space

/-- A reader that waits for something skips blanks. -/
def Skips (r : Reader) : Prop := ∀ c, isSpace c = true → r.step c.toUInt8 = r

theorem feed_blanks {r : Reader} (skips : r.Skips) {text : List Char}
    (blank : ∀ c ∈ text, isSpace c = true) : r.feed text = r := by
  induction text with
  | nil => rfl
  | cons c text ih =>
    obtain ⟨here, there⟩ := List.forall_mem_cons.mp blank
    have ascii : c.toNat < 128 := by
      rcases isSpace_cases here with rfl | rfl | rfl | rfl <;> decide
    rw [feed_cons ascii, skips c here]
    exact ih there

theorem skips_next (r : Reader) (container : Container) :
    Skips { r with mode := .next container } := by
  intro c space
  cases container <;> rcases isSpace_cases space with rfl | rfl | rfl | rfl <;> rfl

theorem skips_value (r : Reader) : Skips { r with mode := .value } := by
  intro c space
  rcases isSpace_cases space with rfl | rfl | rfl | rfl <;> rfl

theorem skips_firstItem (r : Reader) : Skips { r with mode := .firstItem } := by
  intro c space
  rcases isSpace_cases space with rfl | rfl | rfl | rfl <;> rfl

theorem skips_firstKey (r : Reader) : Skips { r with mode := .firstKey } := by
  intro c space
  rcases isSpace_cases space with rfl | rfl | rfl | rfl <;> rfl

theorem skips_nextKey (r : Reader) (fields : Entries Value) :
    Skips { r with mode := .nextKey fields } := by
  intro c space
  rcases isSpace_cases space with rfl | rfl | rfl | rfl <;> rfl

/-! ### Strings -/

theorem settle_mode (r : Reader) (mode : Mode) (v : Value) :
    settle { r with mode } v = r.settle v := by
  obtain ⟨values, stack, other⟩ := r
  cases stack <;> rfl

theorem foldl_literal {mode : Literal → Mode} (r : Reader)
    (more : ∀ (l next : Literal) (byte : UInt8), l.push byte = .more next →
      step { r with mode := mode l } byte = { r with mode := mode next })
    {l last : Literal} {bytes : List UInt8} (push : l.pushAll? bytes = some last) :
    bytes.foldl step { r with mode := mode l } = { r with mode := mode last } := by
  induction bytes generalizing l with
  | nil =>
    cases push
    rfl
  | cons byte bytes ih =>
    rw [Literal.pushAll?] at push
    split at push
    case h_1 next first =>
      rw [List.foldl_cons, more l next byte first]
      exact ih push
    case h_2 => cases push

/-- The literal after its opening quote, up to its closing one. -/
def literalTail (s : String) : List Char := s.toList.flatMap escapeChar ++ ['"']

theorem quote_eq (s : String) : quote s = '"' :: literalTail s := rfl

theorem feed_string (r : Reader) (s : String) :
    feed { r with mode := .string .opened } (literalTail s) = r.settle (.string s) := by
  have chars := foldl_literal r (fun l next byte (push : l.push byte = .more next) =>
    show step { r with mode := .string l } byte = { r with mode := .string next } by
      simp only [step, push]) (Literal.pushAll?_escaped s.toList [])
  rw [List.append_nil] at chars
  rw [literalTail, feed_append, Reader.feed, Reader.feed, Literal.opened, chars]
  show step { r with mode := .string ⟨(bytesOf s.toList).reverse, .outside⟩ } '"'.toUInt8 = _
  simp only [step, Literal.push_quote]
  exact settle_mode r _ _

theorem feed_key (r : Reader) (fields : Entries Value) (key : String) :
    feed { r with mode := .key fields .opened } (literalTail key) =
      { r with mode := .colon fields key } := by
  have chars := foldl_literal r (fun l next byte (push : l.push byte = .more next) =>
    show step { r with mode := .key fields l } byte = { r with mode := .key fields next } by
      simp only [step, push]) (Literal.pushAll?_escaped key.toList [])
  rw [List.append_nil] at chars
  rw [literalTail, feed_append, Reader.feed, Reader.feed, Literal.opened, chars]
  show step { r with mode := .key fields ⟨(bytesOf key.toList).reverse, .outside⟩ }
    '"'.toUInt8 = _
  simp only [step, Literal.push_quote]

theorem settles_string (s : String) : Settles (quote s) (.string s) 0 := by
  refine ⟨'"', literalTail s, quote_eq s, by decide, rfl, by decide, fun r _ => ?_⟩
  have opened : r.begin '"' = { r with mode := .string .opened } := rfl
  rw [opened, feed_string]
  exact .refl _

/-! ### Parts of containers -/

theorem feed_firstItem {text : List Char} (opens : Opens text) (r : Reader) :
    feed { r with mode := .firstItem } text =
      take { r with stack := .array [] :: r.stack, mode := .firstItem } text := by
  obtain ⟨c, rest, rfl, ascii, space, bracket⟩ := opens
  rw [feed_cons ascii]
  simp only [step, ofUInt8_toUInt8 ascii, space, bracket, Bool.false_eq_true, if_false]
  rfl

/-- Blanks and a closing bracket after the last part. -/
theorem Agrees.feed_closing {r : Reader} {container : Container} {style : Style} {level : Nat}
    {closing : Char} {settled : Reader} (h : settled.Agrees { r with mode := .next container })
    (ends : Ends closing) :
    settled.feed (style.gap level ++ [closing]) =
      Reader.step { r with mode := .next container } closing.toUInt8 := by
  have last : Reader.feed { r with mode := .next container } [closing] =
      Reader.step { r with mode := .next container } closing.toUInt8 := by
    rw [feed_cons ends.ascii, feed_nil]
  cases pretty : style.pretty with
  | true =>
    have gap : style.gap level = '\n' :: indent level := by simp [Style.gap, pretty]
    have skipped := feed_blanks (skips_next r container) fun c mem =>
      isSpace_gap (gap ▸ mem : c ∈ style.gap level)
    rw [gap, List.cons_append, h.feed (.inr (.inr (.inr rfl))), ← List.cons_append, feed_append,
      skipped, last]
  | false =>
    have gap : style.gap level = [] := by simp [Style.gap, pretty]
    rw [gap, List.nil_append, h.feed ends, last]

theorem room_inside {r : Reader} {n : Nat} (room : r.stack.length + (n + 1) ≤ maxDepth)
    (frame : Frame) : (frame :: r.stack).length + n ≤ maxDepth := by
  rw [List.length_cons]
  omega

section Array

variable {α : Type} {text : α → List Char} {value : α → Value} {nesting : Nat}

/-- The other items of an array and its closing bracket. -/
theorem feed_items (style : Style) (level : Nat) (items : List α)
    (h : ∀ item ∈ items, Settles (text item) (value item) nesting) {r : Reader}
    (room : r.stack.length + (nesting + 1) ≤ maxDepth) {settled : Reader} {before : List Value}
    (agrees : settled.Agrees { r with mode := .next (.array before) }) :
    settled.feed ((items.flatMap fun item => ',' :: (style.gap (level + 1) ++ text item)) ++
        (style.gap level ++ [']'])) =
      r.settle (.array (before.reverse ++ items.map value)) := by
  -- what has been fed settles as the array so far, whatever its last item still waits for
  induction items generalizing settled before with
  | nil =>
    rw [List.flatMap_nil, List.nil_append, agrees.feed_closing (.inr (.inl rfl)), List.map_nil,
      List.append_nil]
    exact settle_mode r _ _
  | cons item items ih =>
    obtain ⟨here, there⟩ := List.forall_mem_cons.mp h
    have comma : step { r with mode := .next (.array before) } ','.toUInt8 =
        { r with stack := .array before :: r.stack, mode := .value } := rfl
    have deeper := room_inside room (.array before)
    have next := here.take
      (r := { r with stack := .array before :: r.stack, mode := .value }) deeper
    have skipped := feed_blanks (skips_value { r with stack := .array before :: r.stack })
      (fun c (mem : c ∈ style.gap (level + 1)) => isSpace_gap mem)
    rw [List.flatMap_cons, List.append_assoc, List.cons_append, agrees.feed (.inl rfl),
      feed_cons (by decide), comma, List.append_assoc, feed_append, skipped, feed_append,
      feed_opens here.opens (.inr rfl), ih there next, List.reverse_cons, List.append_assoc]
    rfl

theorem settles_array (style : Style) (level : Nat) (items : List α)
    (h : ∀ item ∈ items, Settles (text item) (value item) nesting) :
    Settles (style.enclose level '[' ']' (items.map text)) (.array (items.map value))
      (nesting + 1) := by
  have opened {r : Reader} (room : r.stack.length + (nesting + 1) ≤ maxDepth) :
      r.begin '[' = { r with mode := .firstItem } := if_pos (by omega)
  cases items with
  | nil =>
    refine ⟨'[', [']'], rfl, by decide, rfl, by decide, fun r room => ?_⟩
    rw [opened room, feed_cons (by decide), feed_nil]
    have closed : step { r with mode := .firstItem } ']'.toUInt8 =
        settle { r with mode := .firstItem } (.array []) := rfl
    rw [closed, settle_mode]
    exact .refl _
  | cons item items =>
    obtain ⟨here, there⟩ := List.forall_mem_cons.mp h
    refine ⟨'[', _, enclose_cons .., by decide, rfl, by decide, fun r room => ?_⟩
    have skipped := feed_blanks (skips_firstItem r)
      (fun c (mem : c ∈ style.gap (level + 1)) => isSpace_gap mem)
    have deeper := room_inside room (.array [])
    have next := here.take
      (r := { r with stack := .array [] :: r.stack, mode := .firstItem }) deeper
    rw [opened room, feed_append, skipped, feed_append, List.flatMap_map,
      feed_firstItem here.opens r, feed_items style level items there room next]
    exact .refl _

end Array

section Object

variable {α : Type} {text : α → List Char} {value : α → Value} {nesting : Nat}

/-- A member after the quote that opens its key. -/
theorem take_member {style : Style} (plain : style.color = false) (key : String)
    {spelling : List Char} (opens : Opens spelling) (r : Reader) (table : Entries Value) :
    ∃ tail, style.member (key, spelling) = '"' :: tail ∧
      Reader.feed { r with mode := .key table .opened } tail =
        take { r with stack := .object table key :: r.stack, mode := .value } spelling := by
  have blank : ∀ c ∈ if style.pretty then [' '] else [], isSpace c = true := by
    cases style.pretty <;> simp [isSpace]
  have colon : Reader.step { r with mode := .colon table key } ':'.toUInt8 =
      { r with stack := .object table key :: r.stack, mode := .value } := rfl
  refine ⟨literalTail key ++ ':' :: ((if style.pretty then [' '] else []) ++ spelling), ?_, ?_⟩
  · rw [Style.member, Style.paint, plain]
    rfl
  · rw [feed_append, feed_key, feed_cons (by decide), colon, feed_append,
      feed_blanks (skips_value { r with stack := .object table key :: r.stack }) blank]
    exact feed_opens opens (.inr rfl)

/-- The other members of an object and its closing brace. -/
theorem feed_members {style : Style} (plain : style.color = false) (level : Nat)
    (fields : Entries α)
    (h : ∀ field ∈ fields, Settles (text field.2) (value field.2) nesting) {r : Reader}
    (room : r.stack.length + (nesting + 1) ≤ maxDepth) {settled : Reader} {table : Entries Value}
    (agrees : settled.Agrees { r with mode := .next (.object table) }) :
    settled.feed ((fields.flatMap fun field =>
          ',' :: (style.gap (level + 1) ++ style.member (field.1, text field.2))) ++
        (style.gap level ++ ['\x7d'])) =
      r.settle (.object ((Entries.mapValues value fields).foldl
        (fun table write => Entries.insert write.1 write.2 table) table)) := by
  induction fields generalizing settled table with
  | nil =>
    rw [List.flatMap_nil, List.nil_append, agrees.feed_closing (.inr (.inr (.inl rfl)))]
    exact settle_mode r _ _
  | cons field fields ih =>
    obtain ⟨here, there⟩ := List.forall_mem_cons.mp h
    obtain ⟨tail, member, taken⟩ := take_member plain field.1 here.opens r table
    have deeper := room_inside room (.object table field.1)
    have next := here.take
      (r := { r with stack := .object table field.1 :: r.stack, mode := .value }) deeper
    have comma : step { r with mode := .next (.object table) } ','.toUInt8 =
        { r with mode := .nextKey table } := rfl
    have opened : step { r with mode := .nextKey table } '"'.toUInt8 =
        { r with mode := .key table .opened } := rfl
    have skipped := feed_blanks (skips_nextKey r table)
      (fun c (mem : c ∈ style.gap (level + 1)) => isSpace_gap mem)
    rw [List.flatMap_cons, List.append_assoc, List.cons_append, agrees.feed (.inl rfl),
      feed_cons (by decide), comma, List.append_assoc, feed_append, skipped, member,
      List.cons_append, feed_cons (by decide), opened, feed_append, taken, ih there next]
    rfl

theorem settles_object {style : Style} (plain : style.color = false) (level : Nat)
    (fields : Entries α)
    (h : ∀ field ∈ fields, Settles (text field.2) (value field.2) nesting) :
    Settles (style.enclose level '\x7b' '\x7d'
        ((Entries.mapValues text fields).map style.member))
      (.object (Entries.ofWrites (Entries.mapValues value fields))) (nesting + 1) := by
  have opened {r : Reader} (room : r.stack.length + (nesting + 1) ≤ maxDepth) :
      r.begin '\x7b' = { r with mode := .firstKey } := if_pos (by omega)
  cases fields with
  | nil =>
    refine ⟨'\x7b', ['\x7d'], rfl, by decide, rfl, by decide, fun r room => ?_⟩
    rw [opened room, feed_cons (by decide), feed_nil]
    have closed : step { r with mode := .firstKey } '\x7d'.toUInt8 =
        settle { r with mode := .firstKey } (.object []) := rfl
    rw [closed, settle_mode]
    exact .refl _
  | cons field fields =>
    obtain ⟨here, there⟩ := List.forall_mem_cons.mp h
    refine ⟨'\x7b', _, enclose_cons .., by decide, rfl, by decide, fun r room => ?_⟩
    obtain ⟨tail, member, taken⟩ := take_member plain field.1 here.opens r []
    have deeper := room_inside room (.object [] field.1)
    have next := here.take
      (r := { r with stack := .object [] field.1 :: r.stack, mode := .value }) deeper
    have first : step { r with mode := .firstKey } '"'.toUInt8 =
        { r with mode := .key [] .opened } := rfl
    have skipped := feed_blanks (skips_firstKey r)
      (fun c (mem : c ∈ style.gap (level + 1)) => isSpace_gap mem)
    rw [opened room, feed_append, skipped, member, List.cons_append, feed_cons (by decide), first,
      feed_append, Entries.mapValues, List.map_map, List.flatMap_map]
    dsimp only [Function.comp_apply]
    rw [taken, feed_members plain level fields there room next]
    exact .refl _

end Object

end Reader

end JsonQuery.Json
