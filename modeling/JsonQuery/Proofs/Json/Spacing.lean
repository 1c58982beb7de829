import JsonQuery.Proofs.Json.Controls
import JsonQuery.Proofs.Text.Classes

/-!
# Blanks between the parts of printed values

The indented layout puts spaces and line feeds between the parts of a value. A text with quotes in it
is read character by character to tell these from the blanks inside of string literals (`Place`).
Without them the indented layout is the compact one, which has no blanks of its own
(`condenses_write`).
-/

namespace JsonQuery.Json

/-- Where a JSON text is with regard to its string literals. -/
inductive Place where
  | outside
  | inside
  /-- inside and behind a backslash -/
  | escaped
  deriving DecidableEq, Repr

def Place.after : Place → Char → Place
  | outside, c => if c = '"' then inside else outside
  | inside, c => if c = '"' then outside else if c = '\\' then escaped else inside
  | escaped, _ => inside

/-- The characters of a text, each with the place where it stands. -/
def placed (place : Place) : List Char → List (Char × Place)
  | [] => []
  | c :: rest => (c, place) :: placed (place.after c) rest

/-- A space or line feed outside of string literals. -/
def isSpacing (x : Char × Place) : Bool := x.2 = .outside && (x.1 = ' ' || x.1 = '\n')

/-- The text without the spaces and line feeds outside of its string literals. -/
def condensed (text : List Char) : List Char :=
  ((placed .outside text).filter fun x => !isSpacing x).map Prod.fst

/-- No blank stands outside of the string literals. -/
def Tight (text : List Char) : Prop :=
  ∀ c, (c, Place.outside) ∈ placed .outside text → Text.isBlank c = false

/-- The text ends outside of string literals. -/
def Closed (text : List Char) : Prop := text.foldl Place.after .outside = .outside

theorem placed_append (place : Place) (s t : List Char) :
    placed place (s ++ t) = placed place s ++ placed (s.foldl Place.after place) t := by
  induction s generalizing place with
  | nil => rfl
  | cons c s ih =>
    rw [List.cons_append, placed, placed, ih, List.foldl_cons, List.cons_append]

theorem map_fst_placed (place : Place) (text : List Char) :
    (placed place text).map Prod.fst = text := by
  induction text generalizing place with
  | nil => rfl
  | cons c rest ih => rw [placed, List.map_cons, ih]

theorem condensed_append {s : List Char} (closed : Closed s) (t : List Char) :
    condensed (s ++ t) = condensed s ++ condensed t := by
  rw [condensed, placed_append, closed, List.filter_append, List.map_append]
  rfl

theorem condensed_of_tight {text : List Char} (tight : Tight text) : condensed text = text := by
  have kept : ∀ x ∈ placed .outside text, (!isSpacing x) = true := by
    rintro ⟨c, place⟩ mem
    rw [Bool.not_eq_true', isSpacing, Bool.and_eq_false_iff]
    by_cases outer : place = .outside
    · subst outer
      have solid := tight c mem
      refine Or.inr (Bool.eq_false_iff.mpr fun spacing => ?_)
      rw [Bool.or_eq_true, decide_eq_true_eq, decide_eq_true_eq] at spacing
      rcases spacing with rfl | rfl <;> cases solid
    · exact Or.inl (decide_eq_false outer)
  rw [condensed, List.filter_eq_self.mpr kept, map_fst_placed]

/-- Without quotes a text stays where it starts. -/
theorem placed_outside {text : List Char} (unquoted : ∀ c ∈ text, c ≠ '"') :
    Closed text ∧ ∀ x ∈ placed .outside text, x.1 ∈ text ∧ x.2 = .outside := by
  induction text with
  | nil => exact ⟨rfl, List.forall_mem_nil _⟩
  | cons c rest ih =>
    obtain ⟨here, there⟩ := List.forall_mem_cons.mp unquoted
    obtain ⟨closed, all⟩ := ih there
    have stays : Place.outside.after c = .outside := if_neg here
    refine ⟨?_, ?_⟩
    · rw [Closed, List.foldl_cons, stays]
      exact closed
    · rw [placed, stays]
      refine List.forall_mem_cons.mpr ⟨⟨List.mem_cons_self, rfl⟩, fun x mem => ?_⟩
      exact ⟨List.mem_cons_of_mem c (all x mem).1, (all x mem).2⟩

/-! ### Condensing part by part -/

/-- A text with neither quotes nor blanks. -/
def Solid (text : List Char) : Prop := ∀ c ∈ text, c ≠ '"' ∧ Text.isBlank c = false

theorem solid_of_all {text : List Char}
    (h : (text.all fun c => c != '"' && !Text.isBlank c) = true) : Solid text := by
  intro c mem
  simpa using List.all_eq_true.mp h c mem

/-- Without its spacing the one text is the other, in which there are no blanks outside of string
literals. Both end outside of them. -/
structure Condenses (s t : List Char) : Prop where
  closed : Closed s
  text : condensed s = t
  closed_tight : Closed t
  tight : Tight t

namespace Condenses

variable {s t s' t' : List Char}

theorem append (h : Condenses s t) (h' : Condenses s' t') : Condenses (s ++ s') (t ++ t') where
  closed := by
    rw [Closed, List.foldl_append, h.closed]
    exact h'.closed
  text := by rw [condensed_append h.closed, h.text, h'.text]
  closed_tight := by
    rw [Closed, List.foldl_append, h.closed_tight]
    exact h'.closed_tight
  tight := by
    intro c mem
    rw [placed_append, h.closed_tight, List.mem_append] at mem
    exact mem.elim (h.tight c) (h'.tight c)

theorem of_tight (closed : Closed t) (tight : Tight t) : Condenses t t :=
  ⟨closed, condensed_of_tight tight, closed, tight⟩

theorem nil : Condenses [] [] := of_tight rfl fun _ mem => nomatch mem

theorem solid (h : Solid t) : Condenses t t := by
  obtain ⟨closed, all⟩ := placed_outside fun c mem => (h c mem).1
  exact of_tight closed fun c mem => (h c (all _ mem).1).2

theorem spacing (h : ∀ c ∈ s, c = ' ' ∨ c = '\n') : Condenses s [] := by
  have unquoted : ∀ c ∈ s, c ≠ '"' := by
    rintro c mem rfl
    rcases h _ mem with same | same <;> cases same
  obtain ⟨closed, all⟩ := placed_outside unquoted
  have dropped : ∀ x ∈ placed .outside s, ¬(!isSpacing x) = true := by
    intro x mem
    obtain ⟨listed, outer⟩ := all x mem
    have blank : (x.1 = ' ' || x.1 = '\n') = true := by simpa using h x.1 listed
    rw [isSpacing, outer, blank]
    decide
  exact ⟨closed, by rw [condensed, List.filter_eq_nil_iff.mpr dropped, List.map_nil], rfl,
    nil.tight⟩

theorem cons {c : Char} (unquoted : c ≠ '"') (visible : Text.isBlank c = false)
    (h : Condenses s t) : Condenses (c :: s) (c :: t) :=
  (solid (List.forall_mem_singleton.mpr ⟨unquoted, visible⟩)).append h

theorem flatMap {α : Type} {parts : List α} {s t : α → List Char}
    (h : ∀ part ∈ parts, Condenses (s part) (t part)) :
    Condenses (parts.flatMap s) (parts.flatMap t) := by
  induction parts with
  | nil => exact nil
  | cons part rest ih =>
    obtain ⟨here, there⟩ := List.forall_mem_cons.mp h
    exact here.append (ih there)

end Condenses

/-! ### String literals -/

/-- Inside a string literal the text neither leaves it nor ends in the middle of an escape. -/
def Enclosed (text : List Char) : Prop :=
  text.foldl Place.after .inside = .inside ∧ ∀ x ∈ placed .inside text, x.2 ≠ .outside

theorem enclosed_nil : Enclosed [] := ⟨rfl, List.forall_mem_nil _⟩

theorem Enclosed.append {s t : List Char} (h : Enclosed s) (h' : Enclosed t) :
    Enclosed (s ++ t) := by
  constructor
  · rw [List.foldl_append, h.1, h'.1]
  · rw [placed_append, h.1]
    exact List.forall_mem_append.mpr ⟨h.2, h'.2⟩

theorem enclosed_plain {text : List Char} (h : ∀ c ∈ text, c ≠ '"' ∧ c ≠ '\\') :
    Enclosed text := by
  induction text with
  | nil => exact enclosed_nil
  | cons c rest ih =>
    obtain ⟨⟨quote, backslash⟩, there⟩ := List.forall_mem_cons.mp h
    have here : Enclosed [c] := by
      constructor
      · simp [Place.after, quote, backslash]
      · simp [placed]
    exact here.append (ih there)

theorem enclosed_escape (c : Char) : Enclosed ['\\', c] := ⟨rfl, by simp [placed, Place.after]⟩

theorem enclosed_escapeChar (c : Char) : Enclosed (escapeChar c) := by
  have digits : ∀ d < 16, d.digitChar ≠ '"' ∧ d.digitChar ≠ '\\' := by decide
  unfold escapeChar
  split
  case h_6 quote backslash _ _ _ =>
    split
    case isTrue =>
      refine (enclosed_escape 'u').append (enclosed_plain fun d mem => ?_)
      rcases List.mem_append.mp mem with mem | mem
      · rw [(List.mem_replicate.mp mem).2]
        decide
      · obtain ⟨digit, small, rfl⟩ := mem_hex mem
        exact digits digit small
    case isFalse => exact enclosed_plain (List.forall_mem_singleton.mpr ⟨quote, backslash⟩)
  all_goals exact enclosed_escape _

theorem enclosed_escaped (cs : List Char) : Enclosed (cs.flatMap escapeChar) := by
  induction cs with
  | nil => exact enclosed_nil
  | cons c cs ih => exact (enclosed_escapeChar c).append ih

/-- Whatever a string holds, its literal is one from the first quote to the last. -/
theorem condenses_quote (s : String) : Condenses (quote s) (quote s) := by
  obtain ⟨stays, inner⟩ := enclosed_escaped s.toList
  have opened : Place.outside.after '"' = .inside := rfl
  apply Condenses.of_tight
  · rw [Closed, quote, List.foldl_cons, opened, List.foldl_append, stays]
    rfl
  · intro c mem
    rw [quote, placed, opened, placed_append, stays, List.mem_cons, List.mem_append] at mem
    rcases mem with same | mem | mem
    · cases same
      rfl
    · exact absurd rfl (inner _ mem)
    · cases List.mem_singleton.mp mem

/-! ### Values -/

theorem solid_numeric {text : List Char} (numeric : ∀ c ∈ text, isNumeric c = true) :
    Solid text := by
  intro c mem
  rcases Reader.isNumeric_cases (numeric c mem) with digit | rfl | rfl
  · have bounds := toNat_of_isDigit digit
    refine ⟨?_, isBlank_eq_false (by omega) (by omega)⟩
    rintro rfl
    cases digit
  · exact ⟨by decide, rfl⟩
  · exact ⟨by decide, rfl⟩

theorem solid_numberText (x : Float) : Solid (numberText x) := by
  cases finite : x.isFinite with
  | true => exact solid_numeric (numberText_finite finite)
  | false =>
    rw [numberText_infinite finite]
    exact solid_of_all rfl

namespace Style

/-- The same style on one line. -/
def inline (style : Style) : Style := { style with pretty := false }

variable {style : Style}

theorem solid_code (paint : Paint) : Solid paint.code.toList := by
  cases paint <;> exact solid_of_all rfl

theorem condenses_paint (paint : Paint) {s t : List Char} (h : Condenses s t) :
    Condenses (style.paint paint s) (style.inline.paint paint t) := by
  show Condenses (style.paint paint s) (style.paint paint t)
  unfold Style.paint
  split
  case isTrue =>
    have reset : Condenses ['\x1b', '[', '0', 'm'] ['\x1b', '[', '0', 'm'] :=
      .solid (solid_of_all rfl)
    apply Condenses.cons (by decide) rfl
    apply Condenses.cons (by decide) rfl
    exact (Condenses.solid (solid_code paint)).append (.cons (by decide) rfl (h.append reset))
  case isFalse => exact h

theorem condenses_gap (level : Nat) : Condenses (style.gap level) [] := by
  apply Condenses.spacing
  intro c mem
  unfold gap at mem
  split at mem
  · rcases List.mem_cons.mp mem with rfl | mem
    · exact Or.inr rfl
    · exact Or.inl (List.mem_replicate.mp mem).2
  · cases mem

/-- The levels of the two layouts need not be the same. -/
theorem condenses_enclose (level level' : Nat) {opening closing : Char}
    (brackets : Solid [opening, closing]) {α : Type}
    {parts : List α} {s t : α → List Char} (h : ∀ part ∈ parts, Condenses (s part) (t part)) :
    Condenses (style.enclose level opening closing (parts.map s))
      (style.inline.enclose level' opening closing (parts.map t)) := by
  obtain ⟨opened, closed⟩ := List.forall_mem_cons.mp brackets
  cases parts with
  | nil => exact .solid brackets
  | cons part parts =>
    obtain ⟨here, there⟩ := List.forall_mem_cons.mp h
    have others : Condenses
        (parts.flatMap fun other => ',' :: (style.gap (level + 1) ++ s other))
        (parts.flatMap fun other => ',' :: t other) :=
      .flatMap fun other mem => .cons (by decide) rfl ((condenses_gap _).append (there other mem))
    have last : Condenses (style.gap level ++ [closing]) [closing] :=
      (condenses_gap level).append (.solid closed)
    rw [List.map_cons, List.map_cons, enclose_cons, enclose_cons, List.flatMap_map,
      List.flatMap_map]
    exact .cons opened.1 opened.2 ((condenses_gap _).append (here.append (others.append last)))

theorem condenses_member (key : String) {s t : List Char} (h : Condenses s t) :
    Condenses (style.member (key, s)) (style.inline.member (key, t)) := by
  have blank : Condenses (if style.pretty then [' '] else []) [] := by
    apply Condenses.spacing
    split <;> simp
  exact (condenses_paint .key (condenses_quote key)).append
    (.cons (by decide) rfl (blank.append h))

theorem condenses_scalar (level level' : Nat) {v : Value} (scalar : v.isScalar = true) :
    Condenses (style.write level v) (style.inline.write level' v) := by
  cases v with
  | array | object => cases scalar
  | null =>
    rw [write, write]
    exact condenses_paint .null (.solid (solid_of_all rfl))
  | boolean b =>
    rw [write, write]
    refine condenses_paint .boolean (.solid ?_)
    cases b <;> exact solid_of_all rfl
  | integer n =>
    rw [write, write]
    exact condenses_paint .number (.solid (solid_numeric (isNumeric_integerText _)))
  | float x =>
    rw [write, write]
    exact condenses_paint .number (.solid (solid_numberText x))
  | string s =>
    rw [write, write]
    exact condenses_paint .string (condenses_quote s)

/-- Without the blanks between its parts a value is written on one line, which has none. -/
theorem condenses_write (level level' : Nat) (v : Value) :
    Condenses (style.write level v) (style.inline.write level' v) := by
  induction v using Value.induction_children generalizing level level' with
  | whole v ih =>
    cases v with
    | array items =>
      rw [write_array, write_array]
      apply condenses_enclose level level' (solid_of_all rfl)
      intro item mem
      exact ih item mem (level + 1) (level' + 1)
    | object fields =>
      rw [write_object_map, write_object_map]
      apply condenses_enclose level level' (solid_of_all rfl)
      intro field mem
      apply condenses_member
      exact ih field.2 (Value.mem_children_of_sorted mem) (level + 1) (level' + 1)
    | _ => exact condenses_scalar level level' rfl

end Style

end JsonQuery.Json
