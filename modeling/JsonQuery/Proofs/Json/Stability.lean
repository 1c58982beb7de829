import JsonQuery.Proofs.Json.RoundTrip

/-!
# Printed values that are printed again

A printed value is decoded and printed again. Which texts come back unchanged is decided by the
numbers in the value alone, and by its nesting: the texts of two values that differ in scalars only
cannot be the same unless those of all scalars are (`write_mapScalars_iff`).
-/

namespace JsonQuery.Json

/-! ### Texts in lockstep -/

/-- What follows a value: nothing, or a character that ends it. -/
def Stops (more : List Char) : Prop := ∀ c ∈ more.head?, Reader.Ends c

/-- Neither text goes on as the other and what follows it. -/
def Aligned (s t : List Char) : Prop :=
  ∀ ⦃a b⦄, Stops a → Stops b → s ++ a = t ++ b → s = t

theorem Aligned.append_left {s t : List Char} (h : Aligned s t) (front : List Char) :
    Aligned (front ++ s) (front ++ t) := by
  intro a b stopsA stopsB same
  rw [List.append_assoc, List.append_assoc] at same
  rw [h stopsA stopsB (List.append_cancel_left same)]

theorem not_isNumeric_of_ends {c : Char} (ends : Reader.Ends c) : isNumeric c = false := by
  rcases ends with rfl | rfl | rfl | rfl <;> rfl

theorem aligned_numeric {s t : List Char} (hs : ∀ c ∈ s, isNumeric c = true)
    (ht : ∀ c ∈ t, isNumeric c = true) : Aligned s t := by
  have beyond {c : Char} {more rest : List Char} (stops : Stops more)
      (numeric : isNumeric c = true) : more ≠ c :: rest := by
    rintro rfl
    rw [not_isNumeric_of_ends (stops c rfl)] at numeric
    cases numeric
  intro a b stopsA stopsB same
  induction s generalizing t with
  | nil =>
    cases t with
    | nil => rfl
    | cons d t => exact absurd same (beyond stopsA (ht d List.mem_cons_self))
  | cons c s ih =>
    cases t with
    | nil => exact absurd same.symm (beyond stopsB (hs c List.mem_cons_self))
    | cons d t =>
      obtain ⟨rfl, rest⟩ := List.cons.inj same
      rw [ih (List.forall_mem_cons.mp hs).2 (List.forall_mem_cons.mp ht).2 rest]

theorem aligned_null {t : List Char} (ht : ∀ c ∈ t, isNumeric c = true) (nonempty : t ≠ []) :
    Aligned "null".toList t := by
  intro a b _ _ same
  obtain ⟨c, t, rfl⟩ := List.exists_cons_of_ne_nil nonempty
  have first : 'n' = c := (List.cons.inj same).1
  have numeric := ht c List.mem_cons_self
  rw [← first] at numeric
  cases numeric

section Enclosed

variable {α : Type} {s t : α → List Char} {a b : List Char}

theorem stops_parts (parts : List α) (text : α → List Char) (style : Style) (level : Nat)
    {closing : Char} (ends : Reader.Ends closing) (more : List Char) :
    Stops ((parts.flatMap fun part => ',' :: text part) ++
      (style.gap level ++ closing :: more)) := by
  obtain ⟨c, rest, same, ends⟩ := Reader.ends_parts parts text style level ends
  have whole : (parts.flatMap fun part => ',' :: text part) ++
      (style.gap level ++ closing :: more) = c :: (rest ++ more) := by
    rw [← List.cons_append, ← same]
    simp only [List.append_assoc, List.singleton_append]
  rw [whole]
  exact fun d first => Option.some.inj first ▸ ends

theorem aligned_parts (style : Style) (level : Nat) {closing : Char} (ends : Reader.Ends closing)
    (parts : List α) (h : ∀ part ∈ parts, Aligned (s part) (t part))
    (same : (parts.flatMap fun part => ',' :: (style.gap (level + 1) ++ s part)) ++
        (style.gap level ++ closing :: a) =
      (parts.flatMap fun part => ',' :: (style.gap (level + 1) ++ t part)) ++
        (style.gap level ++ closing :: b)) :
    ∀ part ∈ parts, s part = t part := by
  induction parts with
  | nil => exact nofun
  | cons part parts ih =>
    obtain ⟨here, there⟩ := List.forall_mem_cons.mp h
    simp only [List.flatMap_cons, List.append_assoc, List.cons_append] at same
    have inner := List.append_cancel_left (List.cons.inj same).2
    have first := here (stops_parts parts _ style level ends a)
      (stops_parts parts _ style level ends b) inner
    rw [first] at inner
    exact List.forall_mem_cons.mpr ⟨first, ih there (List.append_cancel_left inner)⟩

/-- Containers with parts in lockstep are the same only if all their parts are. -/
theorem aligned_enclose (style : Style) (level : Nat) (opening : Char) {closing : Char}
    (ends : Reader.Ends closing) (parts : List α)
    (h : ∀ part ∈ parts, Aligned (s part) (t part))
    (same : style.enclose level opening closing (parts.map s) ++ a =
      style.enclose level opening closing (parts.map t) ++ b) :
    ∀ part ∈ parts, s part = t part := by
  cases parts with
  | nil => exact nofun
  | cons part parts =>
    obtain ⟨here, there⟩ := List.forall_mem_cons.mp h
    simp only [List.map_cons, enclose_cons, List.flatMap_map, List.cons_append,
      List.append_assoc] at same
    have inner := List.append_cancel_left (List.cons.inj same).2
    have first := here (stops_parts parts _ style level ends a)
      (stops_parts parts _ style level ends b) inner
    rw [first] at inner
    exact List.forall_mem_cons.mpr
      ⟨first, aligned_parts style level ends parts there (List.append_cancel_left inner)⟩

/-- Nothing has to follow here. -/
theorem enclose_map_eq_iff (style : Style) (level : Nat) (opening : Char) {closing : Char}
    (ends : Reader.Ends closing) (parts : List α)
    (h : ∀ part ∈ parts, Aligned (s part) (t part)) :
    style.enclose level opening closing (parts.map s) =
        style.enclose level opening closing (parts.map t) ↔
      ∀ part ∈ parts, s part = t part := by
  constructor
  · intro same
    refine aligned_enclose style level opening ends parts h (a := []) (b := []) ?_
    rw [List.append_nil, List.append_nil, same]
  · intro same
    rw [List.map_congr_left same]

end Enclosed

theorem member_append (style : Style) (key : String) (text : List Char) :
    style.member (key, text) = style.member (key, []) ++ text := by
  simp [Style.member]

theorem Aligned.member {s t : List Char} (h : Aligned s t) (style : Style) (key : String) :
    Aligned (style.member (key, s)) (style.member (key, t)) := by
  rw [member_append style key s, member_append style key t]
  exact h.append_left _

/-! ### Values with other scalars -/

section Scalars

variable {style : Style} {f : Value → Value}

theorem write_mapScalars_array (level : Nat) (items : List Value) :
    style.write level ((Value.array items).mapScalars f) =
      style.enclose level '[' ']'
        (items.map fun item => style.write (level + 1) (item.mapScalars f)) := by
  rw [Value.mapScalars_array, Style.write_array, List.map_map]
  rfl

theorem write_mapScalars_object (level : Nat) (fields : Entries Value) :
    style.write level ((Value.object fields).mapScalars f) =
      style.enclose level '\x7b' '\x7d' ((Entries.sorted fields).map fun field =>
        style.member (field.1, style.write (level + 1) (field.2.mapScalars f))) := by
  rw [Value.mapScalars_object, Style.write_object, Entries.sorted_mapValues, Entries.mapValues,
    Entries.mapValues, List.map_map, List.map_map]
  rfl

theorem write_object_map (level : Nat) (fields : Entries Value) :
    style.write level (.object fields) =
      style.enclose level '\x7b' '\x7d' ((Entries.sorted fields).map fun field =>
        style.member (field.1, style.write (level + 1) field.2)) := by
  rw [Style.write_object, Entries.mapValues, List.map_map]
  rfl

variable (plain : style.color = false)
  (aligned : ∀ u : Value, u.isScalar = true →
    (f u).isScalar = true ∧ Aligned (compact.write 0 (f u)) (compact.write 0 u))

include plain aligned

theorem write_mapScalars_scalar (level : Nat) {u : Value} (scalar : u.isScalar = true) :
    style.write level (u.mapScalars f) = compact.write 0 (f u) := by
  rw [Value.mapScalars_scalar scalar, Reader.write_scalar plain level (aligned u scalar).1]

theorem aligned_write (level : Nat) (v : Value) :
    Aligned (style.write level (v.mapScalars f)) (style.write level v) := by
  induction v using Value.induction_children generalizing level with
  | whole v ih =>
    cases v with
    | array items =>
      rw [write_mapScalars_array, Style.write_array]
      intro a b _ _ same
      have parts := aligned_enclose style level '[' (.inr (.inl rfl)) items
        (fun item mem => ih item mem (level + 1)) same
      rw [List.map_congr_left parts]
    | object fields =>
      rw [write_mapScalars_object, write_object_map]
      intro a b _ _ same
      have parts := aligned_enclose style level '\x7b' (.inr (.inr (.inl rfl)))
        (Entries.sorted fields) (fun field listed =>
          (ih field.2 (Value.mem_children_of_sorted listed) (level + 1)).member style field.1) same
      rw [List.map_congr_left parts]
    | _ =>
      rw [write_mapScalars_scalar plain aligned level rfl, Reader.write_scalar plain level rfl]
      exact (aligned _ rfl).2

/-- The text is the same if and only if the texts of all scalars are. -/
theorem write_mapScalars_iff (level : Nat) (v : Value) :
    style.write level (v.mapScalars f) = style.write level v ↔
      ∀ u, Value.Inside u v → u.isScalar = true → compact.write 0 (f u) = compact.write 0 u := by
  induction v using Value.induction_children generalizing level with
  | whole v ih =>
    cases v with
    | array items =>
      rw [write_mapScalars_array, Style.write_array,
        enclose_map_eq_iff style level '[' (.inr (.inl rfl)) items fun item _ =>
          aligned_write plain aligned (level + 1) item]
      constructor
      · intro same u inside scalar
        obtain ⟨item, mem, inside⟩ := inside.of_container scalar rfl
        exact (ih item mem (level + 1)).mp (same item mem) u inside scalar
      · intro same item mem
        exact (ih item mem (level + 1)).mpr fun u inside => same u (.child mem inside)
    | object fields =>
      have members (field : String × Value) :
          style.member (field.1, style.write (level + 1) (field.2.mapScalars f)) =
              style.member (field.1, style.write (level + 1) field.2) ↔
            style.write (level + 1) (field.2.mapScalars f) = style.write (level + 1) field.2 := by
        rw [member_append, member_append style field.1 (style.write (level + 1) field.2)]
        exact List.append_right_inj _
      rw [write_mapScalars_object, write_object_map,
        enclose_map_eq_iff style level '\x7b' (.inr (.inr (.inl rfl))) (Entries.sorted fields)
          fun field _ => (aligned_write plain aligned (level + 1) field.2).member style field.1]
      constructor
      · intro same u inside scalar
        obtain ⟨part, mem, inside⟩ := inside.of_container scalar rfl
        obtain ⟨field, within, rfl⟩ := List.mem_map.mp mem
        have listed := (Entries.sorted_perm fields).mem_iff.mpr within
        have text := (members field).mp (same field listed)
        exact (ih field.2 mem (level + 1)).mp text u inside scalar
      · intro same field listed
        have mem := Value.mem_children_of_sorted listed
        exact (members field).mpr
          ((ih field.2 mem (level + 1)).mpr fun u inside => same u (.child mem inside))
    | _ =>
      rw [write_mapScalars_scalar plain aligned level rfl, Reader.write_scalar plain level rfl]
      constructor
      · intro same u inside _
        cases inside with
        | self => exact same
        | child mem => cases mem
      · exact fun same => same _ .self rfl

end Scalars

/-! ### Scalars that are read back -/

/-- What the text of a scalar is decoded to, and `null` if it cannot be. -/
def readBack (u : Value) : Value :=
  match decode (bytesOf (compact.write 0 u)) with
  | .ok v => v
  | .error _ => .null

/-- The text of the value is decoded to a value with the same text. -/
def Stable (u : Value) : Prop :=
  ∃ v, decode (bytesOf (compact.write 0 u)) = .ok v ∧ compact.write 0 v = compact.write 0 u

theorem readBack_of_settles {u v : Value} (h : Reader.Settles (compact.write 0 u) v 0) :
    readBack u = v := by
  rw [readBack, Reader.decode_of_settles h (Nat.zero_le _)]

theorem positional_ne_nil (d : Decimal) : d.positional ≠ [] := by
  have digits : digits d.coefficient ≠ [] := Nat.toDigits_ne_nil
  unfold Decimal.positional
  dsimp only
  split
  · simp [digits]
  split <;> simp

theorem integerText_ne_nil (n : Int) : integerText n ≠ [] := by
  have digits : digits n.natAbs ≠ [] := Nat.toDigits_ne_nil
  unfold integerText signed
  split
  · exact nofun
  · exact digits

theorem numberText_ne_nil (x : Float) : numberText x ≠ [] := by
  unfold numberText positionalText
  split
  case h_1 negative size fields =>
    rw [fields]
    dsimp only
    rw [String.toList_ofList, signed]
    split
    · exact nofun
    · exact positional_ne_nil _
  case h_2 => exact nofun

/-- The text of a scalar is one of a number, or it is read as a scalar with the same text. -/
theorem numeric_or_settles {u : Value} (scalar : u.isScalar = true) :
    ((u.kind = .integer ∨ u.kind = .float) ∧ compact.write 0 u ≠ [] ∧
        ∀ c ∈ compact.write 0 u, isNumeric c = true) ∨
      ∃ v, Reader.Settles (compact.write 0 u) v 0 ∧ v.isScalar = true ∧
        compact.write 0 v = compact.write 0 u := by
  have paint (paint : Paint) (text : List Char) : compact.paint paint text = text :=
    Reader.paint_plain rfl paint text
  cases u with
  | null =>
    refine Or.inr ⟨.null, ?_, rfl, rfl⟩
    rw [Style.write, paint]
    exact Reader.settles_null
  | boolean b =>
    refine Or.inr ⟨.boolean b, ?_, rfl, rfl⟩
    rw [Style.write, paint]
    cases b with
    | true => exact Reader.settles_true
    | false => exact Reader.settles_false
  | integer n =>
    rw [Style.write, paint]
    exact Or.inl ⟨Or.inl rfl, integerText_ne_nil _, isNumeric_integerText _⟩
  | float x =>
    rw [Style.write, paint]
    cases finite : x.isFinite with
    | true => exact Or.inl ⟨Or.inr rfl, numberText_ne_nil x, numberText_finite finite⟩
    | false =>
      refine Or.inr ⟨.null, ?_, rfl, ?_⟩
      · rw [numberText_infinite finite]
        exact Reader.settles_null
      · rw [Style.write, paint, numberText_infinite finite]
  | string s =>
    refine Or.inr ⟨.string s, ?_, rfl, rfl⟩
    rw [Style.write, paint]
    exact Reader.settles_string s
  | array | object => cases scalar

theorem aligned_readBack {u : Value} (scalar : u.isScalar = true) :
    (readBack u).isScalar = true ∧ Aligned (compact.write 0 (readBack u)) (compact.write 0 u) := by
  rcases numeric_or_settles scalar with ⟨-, nonempty, numeric⟩ | ⟨v, settles, scalar, same⟩
  · rw [readBack]
    split
    case h_1 v read =>
      obtain ⟨x, rfl, -⟩ := Reader.spells_of_decode numeric read
      refine ⟨rfl, ?_⟩
      have text : compact.write 0 (.float x) = numberText x := by
        rw [Style.write, Reader.paint_plain rfl]
      rw [text]
      cases finite : x.isFinite with
      | true => exact aligned_numeric (numberText_finite finite) numeric
      | false =>
        rw [numberText_infinite finite]
        exact aligned_null numeric nonempty
    case h_2 => exact ⟨rfl, aligned_null numeric nonempty⟩
  · rw [readBack_of_settles settles, same]
    exact ⟨scalar, fun _ _ _ _ _ => rfl⟩

theorem stable_iff {u : Value} (scalar : u.isScalar = true) :
    Stable u ↔ compact.write 0 (readBack u) = compact.write 0 u := by
  constructor
  · rintro ⟨v, read, same⟩
    rw [readBack, read]
    exact same
  · intro same
    rcases numeric_or_settles scalar with ⟨-, -, numeric⟩ | ⟨v, settles, -, text⟩
    · rw [readBack] at same
      split at same
      case h_1 v read => exact ⟨v, read, same⟩
      case h_2 =>
        have letter : 'n' ∈ compact.write 0 .null := List.mem_cons_self
        cases numeric 'n' (same ▸ letter)
    · exact ⟨v, Reader.decode_of_settles settles (Nat.zero_le _), text⟩

/-- Only numbers can have a text that does not come back. -/
theorem stable_of_kind {u : Value} (scalar : u.isScalar = true) (integer : u.kind ≠ .integer)
    (float : u.kind ≠ .float) : Stable u := by
  rcases numeric_or_settles scalar with ⟨kind, -⟩ | ⟨v, settles, -, same⟩
  · exact (kind.elim integer float).elim
  · exact ⟨v, Reader.decode_of_settles settles (Nat.zero_le _), same⟩

theorem settles_of_stable {u : Value} (scalar : u.isScalar = true) (stable : Stable u) :
    Reader.Settles (compact.write 0 u) (readBack u).sorted 0 := by
  rw [Value.sorted_scalar (aligned_readBack scalar).1]
  rcases numeric_or_settles scalar with ⟨-, -, numeric⟩ | ⟨v, settles, -⟩
  · obtain ⟨v, read, -⟩ := stable
    obtain ⟨x, rfl, spells⟩ := Reader.spells_of_decode numeric read
    rw [readBack, read]
    exact Reader.settles_number numeric spells
  · rw [readBack_of_settles settles]
    exact settles

theorem demands_scalar {u : Value} (scalar : u.isScalar = true) :
    Reader.Demands (compact.write 0 u) (readBack u).sorted 0 := by
  rw [Value.sorted_scalar (aligned_readBack scalar).1]
  rcases numeric_or_settles scalar with ⟨-, nonempty, numeric⟩ | ⟨v, settles, -⟩
  · refine ⟨Reader.opens_numeric numeric nonempty, fun r c room ends alive => ⟨room, ?_⟩⟩
    obtain ⟨x, spells⟩ := Reader.spells_of_alive numeric nonempty ends alive
    have settles := Reader.settles_number numeric spells
    rwa [readBack_of_settles settles]
  · rw [readBack_of_settles settles]
    exact settles.demands

/-! ### Values -/

/-- What the text of a value is decoded to, if it is decoded at all. -/
def decoded (v : Value) : Value := (v.mapScalars readBack).sorted

theorem demands_write {style : Style} (plain : style.color = false) (level : Nat) {v : Value}
    (distinct : v.Distinct) :
    Reader.Demands (style.write level v) (decoded v) v.nesting := by
  induction v using Value.induction_children generalizing level with
  | whole v ih =>
    have parts (level : Nat) (part : Value) (mem : part ∈ v.children) :=
      ih part mem level (distinct.child mem)
    cases v with
    | array items =>
      rw [Style.write_array]
      refine ⟨Reader.opens_enclose style level ']' _ (by decide) rfl (by decide),
        fun r c _ ends alive => ?_⟩
      obtain ⟨room, read⟩ := Reader.alive_array style level items (parts (level + 1))
        (alive.of_step ends.ascii)
      have inner : Value.nestingItems items ≤ maxDepth - (r.stack.length + 1) :=
        Value.nestingItems_le_iff.mpr fun item mem => by
          have := (read item mem).1
          omega
      rw [← Style.write_array]
      refine ⟨?_, Reader.settles_write_array fun item mem => (read item mem).2⟩
      rw [Value.nesting]
      omega
    | object fields =>
      rw [Style.write_object]
      refine ⟨Reader.opens_enclose style level '\x7d' _ (by decide) rfl (by decide),
        fun r c _ ends alive => ?_⟩
      obtain ⟨room, sorted⟩ := Reader.alive_object plain level (Entries.sorted fields)
        (fun field mem => parts (level + 1) field.2 (Value.mem_children_of_sorted mem))
        (alive.of_step ends.ascii)
      have read : ∀ field ∈ fields, r.stack.length + 1 + field.2.nesting ≤ maxDepth ∧
          Reader.Settles (style.write (level + 1) field.2) (decoded field.2) field.2.nesting :=
        fun field mem => sorted field ((Entries.sorted_perm fields).mem_iff.mpr mem)
      have inner : Value.nestingFields fields ≤ maxDepth - (r.stack.length + 1) :=
        Value.nestingFields_le_iff.mpr fun field mem => by
          have := (read field mem).1
          omega
      rw [← Style.write_object]
      refine ⟨?_, Reader.settles_write_object plain (distinct fields .self)
        fun field mem => (read field mem).2⟩
      rw [Value.nesting]
      omega
    | _ =>
      rw [Reader.write_scalar plain level rfl, decoded, Value.mapScalars_scalar rfl]
      exact demands_scalar rfl

theorem aligned_decoded {style : Style} (plain : style.color = false) (level : Nat) (v : Value) :
    Aligned (style.write level (decoded v)) (style.write level v) := by
  rw [decoded, Style.write_sorted]
  exact aligned_write plain (fun _ => aligned_readBack) level v

/-- Other scalars than numbers are stable anyway. -/
theorem stable_scalars {v : Value}
    (numbers : ∀ u, Value.Inside u v → u.kind = .integer ∨ u.kind = .float → Stable u) (u : Value)
    (inside : Value.Inside u v) (scalar : u.isScalar = true) : Stable u := by
  by_cases number : u.kind = .integer ∨ u.kind = .float
  · exact numbers u inside number
  · obtain ⟨integer, float⟩ := not_or.mp number
    exact stable_of_kind scalar integer float

/-- What a text is decoded to has this text if and only if that is so for all numbers inside. -/
theorem write_decoded_iff {style : Style} (plain : style.color = false) (level : Nat) (v : Value) :
    style.write level (decoded v) = style.write level v ↔
      ∀ u, Value.Inside u v → u.kind = .integer ∨ u.kind = .float → Stable u := by
  rw [decoded, Style.write_sorted, write_mapScalars_iff plain fun _ => aligned_readBack]
  constructor
  · intro same u inside number
    have scalar : u.isScalar = true := by
      cases u with
      | array | object => rcases number with kind | kind <;> cases kind
      | _ => rfl
    exact (stable_iff scalar).mpr (same u inside scalar)
  · exact fun numbers u inside scalar =>
      (stable_iff scalar).mp (stable_scalars numbers u inside scalar)

/-- What a value needs for its text to be decoded and printed again unchanged. -/
structure Repeats (v : Value) : Prop where
  shallow : v.nesting ≤ 127
  numbers : ∀ u, Value.Inside u v → u.kind = .integer ∨ u.kind = .float → Stable u

theorem Repeats.settles {style : Style} (plain : style.color = false) {v : Value}
    (distinct : v.Distinct) (h : Repeats v) :
    Reader.Settles (style.write 0 v) (decoded v) maxDepth := by
  refine Reader.Settles.mono ?_ h.shallow
  exact Reader.settles_mapScalars plain 0 distinct fun u inside scalar =>
    settles_of_stable scalar (stable_scalars h.numbers u inside scalar)

end JsonQuery.Json
