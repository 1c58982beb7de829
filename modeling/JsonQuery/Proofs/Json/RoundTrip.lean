import JsonQuery.Proofs.Json.Survival
import JsonQuery.Proofs.Value.Scalars

/-!
# Decoding undoes printing

In both layouts a printed value is decoded to the same value, but that integers have become floats
and floats that are not finite `null` (`decode_print`). The digits of floats are assumed to be read
back.
-/

namespace JsonQuery

namespace Value

/-! ### What comes back -/

mutual

/-- The value as JSON can express it. -/
def reread : Value → Value
  | .integer n => .float (Float.ofInt n.toInt)
  | .float x => if x.isFinite then .float x else .null
  | .array items => .array (rereadItems items)
  | .object fields => .object (rereadFields fields)
  | v => v

def rereadItems : List Value → List Value
  | [] => []
  | item :: rest => item.reread :: rereadItems rest

def rereadFields : List (String × Value) → List (String × Value)
  | [] => []
  | (key, v) :: rest => (key, v.reread) :: rereadFields rest

end

mutual

/-- How many arrays and objects are nested inside one another at most. -/
def nesting : Value → Nat
  | .array items => nestingItems items + 1
  | .object fields => nestingFields fields + 1
  | _ => 0

def nestingItems : List Value → Nat
  | [] => 0
  | item :: rest => max item.nesting (nestingItems rest)

def nestingFields : List (String × Value) → Nat
  | [] => 0
  | (_, v) :: rest => max v.nesting (nestingFields rest)

end

theorem rereadItems_eq (items : List Value) : rereadItems items = items.map reread := by
  induction items with
  | nil => rfl
  | cons item rest ih => rw [rereadItems, ih, List.map_cons]

theorem rereadFields_eq (fields : Entries Value) :
    rereadFields fields = Entries.mapValues reread fields := by
  induction fields with
  | nil => rfl
  | cons field rest ih => rw [rereadFields, ih, Entries.mapValues_cons]

theorem sorted_reread_array (items : List Value) :
    (Value.array items).reread.sorted = .array (items.map fun item => item.reread.sorted) := by
  rw [reread, rereadItems_eq, sorted_array, List.map_map]
  rfl

theorem sorted_reread_object (fields : Entries Value) :
    (Value.object fields).reread.sorted =
      .object (Entries.mapValues (fun v => v.reread.sorted) (Entries.sorted fields)) := by
  rw [reread, rereadFields_eq, sorted_object, Entries.sorted_mapValues]
  simp only [Entries.mapValues, List.map_map]
  rfl

theorem nestingItems_le_iff {items : List Value} {n : Nat} :
    nestingItems items ≤ n ↔ ∀ item ∈ items, item.nesting ≤ n := by
  induction items with
  | nil => simp [nestingItems]
  | cons item rest ih => rw [nestingItems, Nat.max_le, ih, List.forall_mem_cons]

theorem nestingFields_le_iff {fields : Entries Value} {n : Nat} :
    nestingFields fields ≤ n ↔ ∀ field ∈ fields, field.2.nesting ≤ n := by
  induction fields with
  | nil => simp [nestingFields]
  | cons field rest ih => rw [nestingFields, Nat.max_le, ih, List.forall_mem_cons]

theorem mapScalars_reread (v : Value) : v.mapScalars reread = v.reread := by
  induction v using induction_children with
  | whole v ih =>
    cases v with
    | array items =>
      have same : ∀ item ∈ items, item.mapScalars reread = item.reread := ih
      rw [mapScalars_array, reread, rereadItems_eq, List.map_congr_left same]
    | object fields =>
      have same : ∀ field ∈ fields, field.2.mapScalars reread = field.2.reread :=
        fun field mem => ih field.2 (List.mem_map_of_mem mem)
      rw [mapScalars_object, reread, rereadFields_eq, Entries.mapValues, Entries.mapValues,
        List.map_congr_left fun field mem => congrArg (Prod.mk field.1) (same field mem)]
    | _ => exact mapScalars_scalar rfl reread

end Value

namespace Json

open Value (Everywhere everywhere_array everywhere_object everywhere_leaf)

/-- `settles_write` asks this of all that is inside the value: digits that are read back, and no
key twice. -/
def Printable : Value → Prop
  | .float x => x.isFinite = true → Numeral.Spells (numberText x) x
  | .object fields => Entries.Distinct fields
  | _ => True

namespace Reader

theorem settles_numberText {x : Float} (h : Printable (.float x)) :
    Settles (numberText x) (Value.float x).reread.sorted 0 := by
  rw [Value.reread]
  cases finite : x.isFinite with
  | true => exact settles_number (numberText_finite finite) (h finite)
  | false =>
    rw [numberText_infinite finite]
    exact settles_null

theorem settles_integerText (n : Int64) :
    Settles (integerText n.toInt) (Value.integer n).reread.sorted 0 := by
  have low := Int64.le_toInt n
  have high := Int64.toInt_lt n
  have small : n.toInt.natAbs < UInt64.size := by
    have : UInt64.size = 18446744073709551616 := rfl
    omega
  exact settles_number (isNumeric_integerText n.toInt) (Numeral.spells_integerText small)

theorem paint_plain {style : Style} (plain : style.color = false) (paint : Paint)
    (text : List Char) : style.paint paint text = text := by
  rw [Style.paint, plain]
  rfl

/-- The layout of a scalar does not depend on the style. -/
theorem write_scalar {style : Style} (plain : style.color = false) (level : Nat) {v : Value}
    (scalar : v.isScalar = true) : style.write level v = compact.write 0 v := by
  have paint (paint : Paint) (text : List Char) :
      style.paint paint text = compact.paint paint text := by
    rw [paint_plain plain, paint_plain rfl]
  cases v with
  | array | object => cases scalar
  | _ => rw [Style.write, Style.write, paint]

section

variable {style : Style} {f : Value → Value} {level : Nat}

theorem settles_write_array {items : List Value}
    (h : ∀ item ∈ items,
      Settles (style.write (level + 1) item) (item.mapScalars f).sorted item.nesting) :
    Settles (style.write level (.array items)) ((Value.array items).mapScalars f).sorted
      (Value.array items).nesting := by
  rw [Style.write_array, Value.sorted_mapScalars_array, Value.nesting]
  exact settles_array style level items fun item mem =>
    (h item mem).mono (Value.nestingItems_le_iff.mp (Nat.le_refl _) item mem)

theorem settles_write_object (plain : style.color = false) {fields : Entries Value}
    (distinct : Entries.Distinct fields)
    (h : ∀ field ∈ fields,
      Settles (style.write (level + 1) field.2) (field.2.mapScalars f).sorted field.2.nesting) :
    Settles (style.write level (.object fields)) ((Value.object fields).mapScalars f).sorted
      (Value.object fields).nesting := by
  -- the members come in key order, so inserting them one by one makes their table again
  have ordered : Entries.Ascending
      (Entries.mapValues (fun v => (v.mapScalars f).sorted) (Entries.sorted fields)) := by
    rw [Entries.Ascending, Entries.keys_mapValues]
    exact Entries.ascending_sorted distinct
  rw [Style.write_object, Value.sorted_mapScalars_object, Value.nesting,
    ← Entries.ofWrites_of_ascending ordered]
  refine settles_object plain level (Entries.sorted fields) fun field mem => ?_
  have mem := (Entries.sorted_perm fields).mem_iff.mp mem
  exact (h field mem).mono (Value.nestingFields_le_iff.mp (Nat.le_refl _) field mem)

end

/-- A value is read with all its scalars read. -/
theorem settles_mapScalars {style : Style} (plain : style.color = false) {f : Value → Value}
    (level : Nat) {v : Value} (distinct : v.Distinct)
    (scalars : ∀ u, Value.Inside u v → u.isScalar = true →
      Settles (compact.write 0 u) (f u).sorted 0) :
    Settles (style.write level v) (v.mapScalars f).sorted v.nesting := by
  induction v using Value.induction_children generalizing level with
  | whole v ih =>
    have parts (level : Nat) (part : Value) (mem : part ∈ v.children) :=
      ih part mem level (distinct.child mem) fun u inside => scalars u (.child mem inside)
    cases v with
    | array items => exact settles_write_array (parts (level + 1))
    | object fields =>
      exact settles_write_object plain (distinct fields .self) fun field mem =>
        parts (level + 1) field.2 (List.mem_map_of_mem mem)
    | _ =>
      rw [write_scalar plain level rfl, Value.mapScalars_scalar rfl]
      exact scalars _ .self rfl

theorem settles_write {style : Style} (plain : style.color = false) (level : Nat) (v : Value)
    (h : Everywhere Printable v) :
    Settles (style.write level v) v.reread.sorted v.nesting := by
  rw [← Value.mapScalars_reread]
  refine settles_mapScalars plain level (fun fields inside => h _ inside) fun u inside scalar => ?_
  cases u with
  | null => exact settles_null
  | boolean b =>
    cases b with
    | true => exact settles_true
    | false => exact settles_false
  | integer n => exact settles_integerText n
  | float x => exact settles_numberText (h _ inside)
  | string s => exact settles_string s
  | array | object => cases scalar

/-! ### Texts of one value -/

theorem decode_of_settles {text : List Char} {v : Value} {n : Nat} (h : Settles text v n)
    (shallow : n ≤ maxDepth) : decode (bytesOf text) = .ok v := by
  have room : start.stack.length + n ≤ maxDepth := by simpa [start] using shallow
  have all : decodeAll (bytesOf text) = ([v], none) := by
    refine decodeAll_eq_iff.mpr ?_
    show (start.feed text).finish = _
    rw [feed_opens h.opens (.inl rfl), (h.take room).finish]
    rfl
  unfold decode
  rw [all]

theorem decodeAll_of_decode {bytes : List UInt8} {v : Value} (h : decode bytes = .ok v) :
    decodeAll bytes = ([v], none) := by
  unfold decode at h
  split at h
  case h_3 value all => rw [all, Except.ok.inj h]
  all_goals cases h

/-- A text of number characters that is decoded spells what it is decoded to. -/
theorem spells_of_decode {text : List Char} (numeric : ∀ c ∈ text, isNumeric c = true) {v : Value}
    (h : decode (bytesOf text) = .ok v) : ∃ x, v = .float x ∧ Numeral.Spells text x := by
  have all : (feed start text).finish = ([v], none) :=
    decodeAll_eq_iff.mp (decodeAll_of_decode h)
  have nonempty : text ≠ [] := by
    rintro rfl
    cases all
  rw [feed_opens (opens_numeric numeric nonempty) (.inl rfl)] at all
  obtain ⟨c, rest, n, last, same, started, pushed, taken⟩ :=
    take_numeric numeric nonempty (alive_of_finish all)
  -- the text ends inside a number, so only the last state decides what it is read as
  rw [taken] at all
  unfold finish Mode.ending at all
  dsimp only [start] at all
  cases complete : last.isComplete with
  | false =>
    rw [complete] at all
    cases all
  | true =>
    rw [complete] at all
    cases value : last.value? with
    | none =>
      rw [value] at all
      cases all
    | some x =>
      rw [value] at all
      cases all
      exact ⟨x, rfl, c, rest, n, last, same, started, pushed, complete, value⟩

end Reader

theorem printable {v : Value} (distinct : v.Distinct)
    (floats : ∀ x, Value.Inside (.float x) v → x.isFinite = true →
      decode (bytesOf (numberText x)) = .ok (.float x)) : Everywhere Printable v := by
  intro u inside
  cases u with
  | float x =>
    intro finite
    obtain ⟨y, same, spells⟩ :=
      Reader.spells_of_decode (numberText_finite finite) (floats x inside finite)
    cases same
    exact spells
  | object fields => exact distinct fields inside
  | _ => trivial

/-- A value with tables that have every key once, in which at most 127 containers are nested, is
decoded from either layout, if the text of each of its finite floats is. Decoded tables have
their fields in key order. -/
theorem decode_print {v : Value} (distinct : v.Distinct) (shallow : v.nesting ≤ 127)
    (floats : ∀ x, Value.Inside (.float x) v → x.isFinite = true →
      decode (bytesOf (numberText x)) = .ok (.float x)) :
    decode (print compact v).toUTF8.data.toList = .ok v.reread.sorted ∧
      decode (print pretty v).toUTF8.data.toList = .ok v.reread.sorted := by
  have settles (style : Style) (plain : style.color = false) :=
    Reader.settles_write plain 0 v (printable distinct floats)
  constructor
  · rw [print, toList_toUTF8]
    exact Reader.decode_of_settles (settles compact rfl) shallow
  · rw [print, toList_toUTF8]
    exact Reader.decode_of_settles (settles pretty rfl) shallow

theorem decode_print_escapes :
    decode (print pretty (.object [("\x01\"", .array [.integer (-3), .float 1.5,
        .float (1.0 / 0.0)])])).toUTF8.data.toList =
      .ok (.object [("\x01\"", .array [.float (Float.ofInt (-3)), .float 1.5, .null])]) := by
  have finite : (1.5 : Float).isFinite = true := by decide +kernel
  have infinite : (1.0 / 0.0 : Float).isFinite = false := by decide +kernel
  have text : numberText 1.5 = ['1', '.', '5'] := by decide +kernel
  have spells : Numeral.Spells ['1', '.', '5'] 1.5 :=
    ⟨'1', ['.', '5'], _, _, rfl, rfl, rfl, rfl, by decide +kernel⟩
  have settles := Reader.settles_number (text ▸ numberText_finite finite) spells
  have read : decode (bytesOf (numberText 1.5)) = .ok (.float 1.5) :=
    text ▸ Reader.decode_of_settles settles (Nat.zero_le maxDepth)
  have reread : (Value.object [("\x01\"", .array [.integer (-3), .float 1.5,
      .float (1.0 / 0.0)])]).reread.sorted =
      .object [("\x01\"", .array [.float (Float.ofInt (-3)), .float 1.5, .null])] := by
    rw [Value.sorted_reread_object, Entries.sorted, List.mergeSort_singleton, Entries.mapValues,
      List.map_cons, List.map_nil, Value.sorted_reread_array]
    simp [Value.reread, Value.sorted, finite, infinite]
  have leaves : ∀ item ∈ [Value.integer (-3), .float 1.5, .float (1.0 / 0.0)],
      item.children = [] := by
    simp [Value.children]
  rw [← reread]
  refine (decode_print (fun fields inside => ?_) (by decide) fun x inside isFinite => ?_).2
  · cases inside with
    | self => decide
    | child mem inside =>
      obtain rfl := List.mem_singleton.mp mem
      rcases inside.of_leaves leaves with same | mem
      · cases same
      · simp at mem
  · cases inside with
    | child mem inside =>
      obtain rfl := List.mem_singleton.mp mem
      rcases inside.of_leaves leaves with same | mem
      · cases same
      · simp only [List.mem_cons, List.not_mem_nil, Value.float.injEq, reduceCtorEq, or_false,
          false_or] at mem
        rcases mem with rfl | rfl
        · exact read
        · cases infinite.symm.trans isFinite

end Json

end JsonQuery
