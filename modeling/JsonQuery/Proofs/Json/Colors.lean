import JsonQuery.Proofs.Json.Controls

/-!
# Colors of printed values

`uncolored` takes the color sequences out of a text. A text that is printed without colors has no
escape character in it, so what is taken out of a colored text was put there by the printer
(`uncolors_write`).
-/

namespace JsonQuery.Json

/-- A character of the parameters of a color sequence. -/
def isParameter (c : Char) : Bool := c.isDigit || c = ';'

/-- What is behind the color sequence that starts a text, if one does: an escape character and a
bracket, parameters, and the letter `m`. -/
def afterColor? : List Char → Option (List Char)
  | '\x1b' :: '[' :: text =>
    match text.dropWhile isParameter with
    | 'm' :: rest => some rest
    | _ => none
  | _ => none

theorem length_lt_of_afterColor? {text rest : List Char} (h : afterColor? text = some rest) :
    rest.length < text.length := by
  unfold afterColor? at h
  split at h
  case h_1 text =>
    split at h
    case h_1 found =>
      cases h
      have shorter := (List.dropWhile_suffix (l := text) isParameter).length_le
      rw [found] at shorter
      simp only [List.length_cons] at shorter ⊢
      omega
    case h_2 => cases h
  case h_2 => cases h

/-- The text without the color sequences in it. -/
def uncolored (text : List Char) : List Char :=
  match _h : afterColor? text with
  | some rest => uncolored rest
  | none =>
    match text with
    | [] => []
    | c :: rest => c :: uncolored rest
termination_by text.length
decreasing_by
  · exact length_lt_of_afterColor? _h
  · exact Nat.lt_succ_self _

theorem uncolored_of_color {text rest : List Char} (h : afterColor? text = some rest) :
    uncolored text = uncolored rest := by
  rw [uncolored]
  split
  case h_1 found =>
    rw [h] at found
    cases found
    rfl
  case h_2 none =>
    rw [h] at none
    cases none

theorem uncolored_cons {c : Char} (other : c ≠ '\x1b') (rest : List Char) :
    uncolored (c :: rest) = c :: uncolored rest := by
  have plain : afterColor? (c :: rest) = none := by
    unfold afterColor?
    split
    case h_1 _ same =>
      cases same
      exact absurd rfl other
    case h_2 => rfl
  rw [uncolored]
  split
  case h_1 found =>
    rw [plain] at found
    cases found
  case h_2 => rfl

theorem uncolored_nil : uncolored [] = [] := by
  rw [uncolored]
  rfl

theorem afterColor?_sequence {code : List Char} (parameters : ∀ c ∈ code, isParameter c = true)
    (rest : List Char) : afterColor? ('\x1b' :: '[' :: (code ++ 'm' :: rest)) = some rest := by
  have behind : (code ++ 'm' :: rest).dropWhile isParameter = 'm' :: rest := by
    rw [List.dropWhile_append_of_pos parameters]
    rfl
  simp only [afterColor?, behind]

/-- The one text without its colors is the other, also in front of any text. -/
def Uncolors (s t : List Char) : Prop := ∀ more, uncolored (s ++ more) = t ++ uncolored more

namespace Uncolors

variable {s t s' t' : List Char}

theorem append (h : Uncolors s t) (h' : Uncolors s' t') : Uncolors (s ++ s') (t ++ t') := by
  intro more
  rw [List.append_assoc, h, h', List.append_assoc]

theorem plain {text : List Char} (h : ∀ c ∈ text, c ≠ '\x1b') : Uncolors text text := by
  intro more
  induction text with
  | nil => rfl
  | cons c rest ih =>
    obtain ⟨here, there⟩ := List.forall_mem_cons.mp h
    rw [List.cons_append, uncolored_cons here, ih there]
    rfl

theorem cons {c : Char} (other : c ≠ '\x1b') (h : Uncolors s t) : Uncolors (c :: s) (c :: t) :=
  (plain (List.forall_mem_singleton.mpr other)).append h

theorem sequence {code : List Char} (parameters : ∀ c ∈ code, isParameter c = true) :
    Uncolors ('\x1b' :: '[' :: (code ++ ['m'])) [] := by
  intro more
  rw [List.cons_append, List.cons_append, List.append_assoc]
  exact uncolored_of_color (afterColor?_sequence parameters more)

theorem flatMap {α : Type} {parts : List α} {s t : α → List Char}
    (h : ∀ part ∈ parts, Uncolors (s part) (t part)) :
    Uncolors (parts.flatMap s) (parts.flatMap t) := by
  induction parts with
  | nil => exact fun _ => rfl
  | cons part rest ih =>
    obtain ⟨here, there⟩ := List.forall_mem_cons.mp h
    exact here.append (ih there)

end Uncolors

theorem ne_escape_of_visible {text : List Char} (h : Visible text) : ∀ c ∈ text, c ≠ '\x1b' := by
  rintro c mem rfl
  exact nomatch h _ mem

namespace Style

/-- The same layout without colors. -/
def plain (style : Style) : Style := { style with color := false }

variable (style : Style)

theorem parameters_code (paint : Paint) : ∀ c ∈ paint.code.toList, isParameter c = true := by
  cases paint <;> simp [Paint.code, isParameter]

/-- A color stands around the text that it colors. -/
theorem uncolors_paint (paint : Paint) {text : List Char} (visible : Visible text) :
    Uncolors (style.paint paint text) (style.plain.paint paint text) := by
  have inside : Uncolors text text := .plain (ne_escape_of_visible visible)
  rw [@Reader.paint_plain style.plain rfl]
  unfold Style.paint
  split
  case isTrue =>
    have start := Uncolors.sequence (parameters_code paint)
    have zero : ∀ c ∈ ['0'], isParameter c = true := by simp [isParameter]
    have reset : Uncolors ['\x1b', '[', '0', 'm'] [] := Uncolors.sequence zero
    have all := (start.append inside).append reset
    simpa using all
  case isFalse => exact inside

theorem ne_escape_gap (level : Nat) : ∀ c ∈ style.gap level, c ≠ '\x1b' := by
  rintro c mem rfl
  cases (control_gap mem rfl).1

variable {style}

theorem uncolors_enclose {level : Nat} {opening closing : Char}
    (brackets : ∀ c ∈ [opening, closing], c ≠ '\x1b') {α : Type} {parts : List α}
    {s t : α → List Char} (h : ∀ part ∈ parts, Uncolors (s part) (t part)) :
    Uncolors (style.enclose level opening closing (parts.map s))
      (style.plain.enclose level opening closing (parts.map t)) := by
  obtain ⟨opened, closed⟩ := List.forall_mem_cons.mp brackets
  have gap (level : Nat) : Uncolors (style.gap level) (style.plain.gap level) :=
    .plain (style.ne_escape_gap level)
  cases parts with
  | nil => exact .plain brackets
  | cons part parts =>
    obtain ⟨here, there⟩ := List.forall_mem_cons.mp h
    rw [List.map_cons, List.map_cons, enclose_cons, enclose_cons, List.flatMap_map,
      List.flatMap_map]
    refine .cons opened ((gap _).append (here.append (.append ?_ ((gap _).append (.plain closed)))))
    exact Uncolors.flatMap fun other mem => .cons (by decide) ((gap _).append (there other mem))

theorem uncolors_member {s t : List Char} (h : Uncolors s t) (key : String) :
    Uncolors (style.member (key, s)) (style.plain.member (key, t)) := by
  refine (style.uncolors_paint .key (visible_quote key)).append (.cons (by decide) (.append ?_ h))
  exact .plain (by split <;> simp)

theorem uncolors_scalar (level : Nat) {v : Value} (scalar : v.isScalar = true) :
    Uncolors (style.write level v) (style.plain.write level v) := by
  obtain ⟨paint, text, visible, same⟩ := exists_paint scalar
  rw [same, same]
  exact style.uncolors_paint paint visible

/-- Taking away its colors leaves what is printed without colors. -/
theorem uncolors_write (level : Nat) (v : Value) :
    Uncolors (style.write level v) (style.plain.write level v) := by
  induction v using Value.induction_children generalizing level with
  | whole v ih =>
    cases v with
    | array items =>
      rw [write_array, write_array]
      exact uncolors_enclose (by simp) fun item mem => ih item mem (level + 1)
    | object fields =>
      rw [write_object_map, write_object_map]
      refine uncolors_enclose (by simp) fun field mem => uncolors_member ?_ field.1
      exact ih field.2 (Value.mem_children_of_sorted mem) (level + 1)
    | _ => exact uncolors_scalar level rfl

end Style

end JsonQuery.Json
