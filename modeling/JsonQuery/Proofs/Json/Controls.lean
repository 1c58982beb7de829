import JsonQuery.Proofs.Json.Stability

/-!
# Control characters of printed values

Without colors the only control characters of a printed value are the line feeds of the indented
layout (`control_write`), and there are as many of them as the arrays and objects call for
(`count_write`). The compact layout has none, whatever the strings and keys are.
-/

namespace JsonQuery.Json

/-! ### Control characters -/

/-- A text without control characters. -/
def Visible (text : List Char) : Prop := ∀ c ∈ text, isControl c = false

theorem visible_cons {c : Char} {text : List Char} :
    Visible (c :: text) ↔ isControl c = false ∧ Visible text := List.forall_mem_cons

theorem visible_append {s t : List Char} : Visible (s ++ t) ↔ Visible s ∧ Visible t :=
  List.forall_mem_append

/-- Hexadecimal digits are the characters of the numbers below sixteen. -/
theorem mem_hex {n : Nat} {c : Char} (mem : c ∈ Text.hex n) : ∃ d < 16, c = d.digitChar := by
  induction n using Nat.strongRecOn with
  | ind n ih =>
    by_cases small : n < 16
    · rw [Text.hex, Nat.toDigits_of_lt_base small] at mem
      exact ⟨n, small, List.mem_singleton.mp mem⟩
    · rw [Text.hex, Nat.toDigits_of_base_le (by decide) (by omega)] at mem
      rcases List.mem_append.mp mem with mem | mem
      · exact ih (n / 16) (by omega) mem
      · exact ⟨n % 16, Nat.mod_lt _ (by decide), List.mem_singleton.mp mem⟩

theorem visible_hex (n : Nat) : Visible (Text.hex n) := by
  have digits : ∀ d < 16, isControl d.digitChar = false := by decide
  intro c mem
  obtain ⟨d, small, rfl⟩ := mem_hex mem
  exact digits d small

theorem visible_numeric {text : List Char} (numeric : ∀ c ∈ text, isNumeric c = true) :
    Visible text := by
  intro c mem
  rcases Reader.isNumeric_cases (numeric c mem) with digit | rfl | rfl
  · obtain ⟨low, high⟩ := Char.isDigit_iff_toNat.mp digit
    have zero : '0'.toNat = 48 := rfl
    have nine : '9'.toNat = 57 := rfl
    simp only [isControl, Bool.or_eq_false_iff, Bool.and_eq_false_iff, decide_eq_false_iff_not]
    omega
  · rfl
  · rfl

/-- What stands for a control character is not one. -/
theorem visible_escapeChar (c : Char) : Visible (escapeChar c) := by
  unfold escapeChar
  split
  case h_6 =>
    split
    case isTrue =>
      refine visible_cons.mpr ⟨rfl, visible_cons.mpr ⟨rfl, visible_append.mpr ⟨?_, ?_⟩⟩⟩
      · exact visible_numeric fun _ => isNumeric_zeros
      · exact visible_hex _
    case isFalse shown => exact List.forall_mem_singleton.mpr (Bool.eq_false_iff.mpr shown)
  all_goals simp [Visible, isControl]

theorem visible_quote (s : String) : Visible (quote s) := by
  refine visible_cons.mpr ⟨rfl, visible_append.mpr ⟨fun c mem => ?_, by simp [Visible, isControl]⟩⟩
  obtain ⟨d, -, mem⟩ := List.mem_flatMap.mp mem
  exact visible_escapeChar d c mem

theorem visible_numberText (x : Float) : Visible (numberText x) := by
  cases finite : x.isFinite with
  | true => exact visible_numeric (numberText_finite finite)
  | false =>
    rw [numberText_infinite finite]
    simp [Visible, isControl]

/-! ### Layout -/

namespace Style

variable {style : Style}

theorem control_gap {level : Nat} {c : Char} (mem : c ∈ style.gap level)
    (control : isControl c = true) : c = '\n' ∧ style.pretty = true := by
  unfold gap at mem
  split at mem
  case isTrue pretty =>
    rcases List.mem_cons.mp mem with rfl | mem
    · exact ⟨rfl, pretty⟩
    · rw [(List.mem_replicate.mp mem).2] at control
      cases control
  case isFalse => cases mem

/-- The line feeds between the parts are the only control characters that a container adds. -/
theorem control_enclose {level : Nat} {opening closing : Char} {parts : List (List Char)}
    (brackets : Visible [opening, closing])
    (h : ∀ part ∈ parts, ∀ c ∈ part, isControl c = true → c = '\n' ∧ style.pretty = true) :
    ∀ c ∈ style.enclose level opening closing parts, isControl c = true →
      c = '\n' ∧ style.pretty = true := by
  have shown {c : Char} (visible : isControl c = false) (control : isControl c = true) :
      c = '\n' ∧ style.pretty = true := by
    rw [visible] at control
    cases control
  obtain ⟨opened, closed, -⟩ := by simpa only [visible_cons] using brackets
  cases parts with
  | nil => exact fun c mem => shown (brackets c mem)
  | cons part parts =>
    obtain ⟨here, there⟩ := List.forall_mem_cons.mp h
    rw [enclose_cons]
    intro c mem control
    simp only [List.mem_cons, List.mem_append, List.mem_flatMap, List.not_mem_nil, or_false] at mem
    rcases mem with rfl | mem | mem | ⟨other, listed, rfl | mem | mem⟩ | mem | rfl
    · exact shown opened control
    · exact control_gap mem control
    · exact here c mem control
    · exact shown rfl control
    · exact control_gap mem control
    · exact there other listed c mem control
    · exact control_gap mem control
    · exact shown closed control

theorem write_member (plain : style.color = false) (key : String) (text : List Char) :
    style.member (key, text) =
      quote key ++ ':' :: ((if style.pretty then [' '] else []) ++ text) := by
  rw [member, Reader.paint_plain plain]

/-- A scalar is one painted text, whatever the style and the level are. -/
theorem exists_paint {v : Value} (scalar : v.isScalar = true) :
    ∃ paint text, Visible text ∧ ∀ style level, write style level v = style.paint paint text := by
  cases v with
  | array | object => cases scalar
  | null => exact ⟨.null, "null".toList, by simp [Visible, isControl], fun _ _ => by rw [write]⟩
  | boolean b =>
    refine ⟨.boolean, if b then "true".toList else "false".toList, ?_, fun _ _ => by rw [write]⟩
    cases b <;> simp [Visible, isControl]
  | integer n =>
    exact ⟨.number, integerText n.toInt, visible_numeric (isNumeric_integerText _),
      fun _ _ => by rw [write]⟩
  | float x => exact ⟨.number, numberText x, visible_numberText x, fun _ _ => by rw [write]⟩
  | string s => exact ⟨.string, quote s, visible_quote s, fun _ _ => by rw [write]⟩

theorem visible_scalar (plain : style.color = false) (level : Nat) {v : Value}
    (scalar : v.isScalar = true) : Visible (style.write level v) := by
  obtain ⟨paint, text, visible, same⟩ := exists_paint scalar
  rw [same, Reader.paint_plain plain]
  exact visible

/-- All other control characters of the value are escaped. -/
theorem control_write (plain : style.color = false) (level : Nat) (v : Value) :
    ∀ c ∈ style.write level v, isControl c = true → c = '\n' ∧ style.pretty = true := by
  have shown {text : List Char} (visible : Visible text) :
      ∀ c ∈ text, isControl c = true → c = '\n' ∧ style.pretty = true := by
    intro c mem control
    rw [visible c mem] at control
    cases control
  induction v using Value.induction_children generalizing level with
  | whole v ih =>
    cases v with
    | array items =>
      rw [write_array]
      refine control_enclose (by simp [Visible, isControl]) ?_
      exact List.forall_mem_map.mpr fun item mem => ih item mem (level + 1)
    | object fields =>
      rw [write_object_map]
      refine control_enclose (by simp [Visible, isControl]) ?_
      refine List.forall_mem_map.mpr fun field mem c inside control => ?_
      rw [write_member plain] at inside
      simp only [List.mem_append, List.mem_cons] at inside
      rcases inside with inside | rfl | inside | inside
      · exact shown (visible_quote field.1) c inside control
      · cases control
      · exact shown (by split <;> simp [Visible, isControl]) c inside control
      · exact ih field.2 (Value.mem_children_of_sorted mem) (level + 1) c inside control
    | _ => exact shown (visible_scalar plain level rfl)

/-! ### Lines -/

theorem count_gap (pretty : style.pretty = true) (level : Nat) :
    (style.gap level).count '\n' = 1 := by
  rw [gap, if_pos pretty, indent, List.count_cons_self, List.count_replicate]
  rfl

theorem count_enclose (pretty : style.pretty = true) (level : Nat) {opening closing : Char}
    (brackets : Visible [opening, closing]) (parts : List (List Char)) :
    (style.enclose level opening closing parts).count '\n' + 1 =
      if parts.isEmpty then 1 else (parts.map fun part => part.count '\n' + 1).sum + 2 := by
  have others {c : Char} (visible : isControl c = false) : (c == '\n') = false := by
    rw [beq_eq_false_iff_ne]
    rintro rfl
    cases visible
  obtain ⟨opened, closed, -⟩ := by simpa only [visible_cons] using brackets
  have comma : (',' == '\n') = false := rfl
  cases parts with
  | nil => simp [enclose, List.count_cons, others opened, others closed]
  | cons part parts =>
    have between : (parts.flatMap fun other => ',' :: (style.gap (level + 1) ++ other)).count '\n' =
        (parts.map fun other => other.count '\n' + 1).sum := by
      rw [List.count_flatMap]
      congr 1
      refine List.map_congr_left fun other _ => ?_
      simp only [Function.comp, List.count_cons, List.count_append, count_gap pretty, comma]
      simp only [Bool.false_eq_true, if_false]
      omega
    rw [enclose_cons]
    simp only [List.count_cons, List.count_append, count_gap pretty, between, others opened,
      others closed, List.count_nil, List.isEmpty_cons, List.map_cons, List.sum_cons,
      Bool.false_eq_true, if_false]
    omega

end Style

end JsonQuery.Json

namespace JsonQuery.Value

mutual

/-- How many lines the indented layout of a value has: the lines of the parts and those of the two
brackets, if there are parts. -/
def lineCount : Value → Nat
  | .array items => if items.isEmpty then 1 else lineCountItems items + 2
  | .object fields => if fields.isEmpty then 1 else lineCountFields fields + 2
  | _ => 1

def lineCountItems : List Value → Nat
  | [] => 0
  | item :: rest => item.lineCount + lineCountItems rest

def lineCountFields : List (String × Value) → Nat
  | [] => 0
  | (_, v) :: rest => v.lineCount + lineCountFields rest

end

theorem lineCountItems_eq (items : List Value) :
    lineCountItems items = (items.map lineCount).sum := by
  induction items with
  | nil => rfl
  | cons item rest ih => rw [lineCountItems, ih, List.map_cons, List.sum_cons]

theorem lineCountFields_eq (fields : Entries Value) :
    lineCountFields fields = (fields.map fun field => field.2.lineCount).sum := by
  induction fields with
  | nil => rfl
  | cons field rest ih => rw [lineCountFields, ih, List.map_cons, List.sum_cons]

end JsonQuery.Value

namespace JsonQuery.Json

namespace Style

variable {style : Style}

/-- The line feeds of the indented layout, whatever the strings and keys are. -/
theorem count_write (plain : style.color = false) (pretty : style.pretty = true) (level : Nat)
    (v : Value) : (style.write level v).count '\n' + 1 = v.lineCount := by
  have single {text : List Char} (visible : Visible text) : text.count '\n' = 0 :=
    List.count_eq_zero.mpr fun mem => nomatch visible _ mem
  induction v using Value.induction_children generalizing level with
  | whole v ih =>
    cases v with
    | array items =>
      have parts : ∀ item ∈ items,
          (style.write (level + 1) item).count '\n' + 1 = item.lineCount :=
        fun item mem => ih item mem (level + 1)
      rw [write_array, count_enclose pretty _ (by simp [Visible, isControl]), List.isEmpty_map,
        List.map_map, Value.lineCount, Value.lineCountItems_eq, ← List.map_congr_left parts]
      rfl
    | object fields =>
      have parts : ∀ field ∈ Entries.sorted fields,
          (style.member (field.1, style.write (level + 1) field.2)).count '\n' + 1 =
            field.2.lineCount := by
        intro field mem
        rw [← ih field.2 (Value.mem_children_of_sorted mem) (level + 1), write_member plain,
          List.count_append, single (visible_quote field.1), if_pos pretty, Nat.zero_add]
        rfl
      have order := ((Entries.sorted_perm fields).map fun field => field.2.lineCount).sum_eq
      have empty : (Entries.sorted fields).isEmpty = fields.isEmpty := by
        rw [Bool.eq_iff_iff, List.isEmpty_iff, List.isEmpty_iff, ← List.length_eq_zero_iff,
          ← List.length_eq_zero_iff, (Entries.sorted_perm fields).length_eq]
      rw [write_object_map, count_enclose pretty _ (by simp [Visible, isControl]),
        List.isEmpty_map, List.map_map, Value.lineCount, Value.lineCountFields_eq, ← order,
        ← List.map_congr_left parts, empty]
      rfl
    | _ => rw [single (visible_scalar plain level rfl)]; rfl

end Style

end JsonQuery.Json
