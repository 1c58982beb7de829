import JsonQuery.Proofs.Template.Scan

/-!
# Matches of a pattern

The pattern `%([-+ 0#]*)(\d+)?(?:\.(\d+))?([a-zA-Z%])` may match the front of a text in several
ways. `Specifier.ways` lists them in the order of a backtracking search, and the first one is the
specifier (`head?_ways`). `Matched` goes from each leftmost match to the next one in the text after
it. The pieces of a template are these matches and what lies between them.
-/

namespace JsonQuery.Template

/-! ### Ways to match -/

/-- The runs of a class in front of a text, each with the text after it, the longest first. -/
def runs (p : Char → Bool) : List Char → List (List Char × List Char)
  | [] => [([], [])]
  | c :: text =>
    if p c then (runs p text).map (fun way => (c :: way.1, way.2)) ++ [([], c :: text)]
    else [([], c :: text)]

def nonemptyRuns (p : Char → Bool) (text : List Char) : List (List Char × List Char) :=
  (runs p text).filter fun way => !way.1.isEmpty

/-- Something, or else nothing. -/
def optionally {α : Type} (ways : List Char → List (α × List Char)) (text : List Char) :
    List (Option α × List Char) :=
  (ways text).map (fun way => (some way.1, way.2)) ++ [(none, text)]

def pointedRuns : List Char → List (List Char × List Char)
  | '.' :: text => nonemptyRuns Text.isDecimalDigit text
  | _ => []

def verbs : List Char → List (Char × List Char)
  | c :: text => if isVerb c then [(c, text)] else []
  | [] => []

/-- All ways to read a specifier behind its `%`. -/
def Specifier.ways (text : List Char) : List (Specifier × List Char) :=
  (runs isFlag text).flatMap fun flags =>
    (optionally (nonemptyRuns Text.isDecimalDigit) flags.2).flatMap fun width =>
      (optionally pointedRuns width.2).flatMap fun precision =>
        (verbs precision.2).map fun verb =>
          (⟨flags.1, width.1.getD [], precision.1, verb.1⟩, verb.2)

theorem exists_runs (p : Char → Bool) (text : List Char) :
    ∃ shorter, runs p text = (text.takeWhile p, text.dropWhile p) :: shorter := by
  induction text with
  | nil => exact ⟨[], rfl⟩
  | cons c text ih =>
    obtain ⟨shorter, same⟩ := ih
    rw [runs, same]
    cases inside : p c with
    | true =>
      refine ⟨shorter.map (fun way => (c :: way.1, way.2)) ++ [([], c :: text)], ?_⟩
      simp [inside]
    | false => exact ⟨[], by simp [inside]⟩

theorem eq_of_mem_runs {p : Char → Bool} {text : List Char} {way : List Char × List Char}
    (mem : way ∈ runs p text) : text = way.1 ++ way.2 ∧ ∀ c ∈ way.1, p c = true := by
  induction text generalizing way with
  | nil =>
    obtain rfl := List.mem_singleton.mp mem
    exact ⟨rfl, List.forall_mem_nil _⟩
  | cons c text ih =>
    have stopped : way = ([], c :: text) → c :: text = way.1 ++ way.2 ∧ ∀ c ∈ way.1, p c = true := by
      rintro rfl
      exact ⟨rfl, List.forall_mem_nil _⟩
    rw [runs] at mem
    split at mem
    case isTrue inside =>
      rcases List.mem_append.mp mem with further | last
      · obtain ⟨way, later, rfl⟩ := List.mem_map.mp further
        obtain ⟨same, all⟩ := ih later
        exact ⟨congrArg (c :: ·) same, List.forall_mem_cons.mpr ⟨inside, all⟩⟩
      · exact stopped (List.mem_singleton.mp last)
    case isFalse => exact stopped (List.mem_singleton.mp mem)

theorem eq_of_mem_nonemptyRuns {p : Char → Bool} {text : List Char} {way : List Char × List Char}
    (mem : way ∈ nonemptyRuns p text) :
    text = way.1 ++ way.2 ∧ way.1 ≠ [] ∧ ∀ c ∈ way.1, p c = true := by
  obtain ⟨run, nonempty⟩ := List.mem_filter.mp mem
  obtain ⟨same, all⟩ := eq_of_mem_runs run
  exact ⟨same, by simpa using nonempty, all⟩

/-- The longest run is the first, if there is one. -/
theorem nonemptyRuns_cases (p : Char → Bool) (text : List Char) :
    (text.takeWhile p = [] ∧ nonemptyRuns p text = []) ∨
      text.takeWhile p ≠ [] ∧
        ∃ shorter, nonemptyRuns p text = (text.takeWhile p, text.dropWhile p) :: shorter := by
  by_cases empty : text.takeWhile p = []
  · refine .inl ⟨empty, List.filter_eq_nil_iff.mpr fun way mem nonempty => ?_⟩
    obtain ⟨same, all⟩ := eq_of_mem_runs mem
    cases run : way.1 with
    | nil => simp [run] at nonempty
    | cons c others =>
      rw [run] at same all
      simp [same, all c List.mem_cons_self] at empty
  · obtain ⟨shorter, same⟩ := exists_runs p text
    refine .inr ⟨empty, shorter.filter fun way => !way.1.isEmpty, ?_⟩
    rw [nonemptyRuns, same, List.filter_cons_of_pos (by simpa using empty)]

/-! ### The first way -/

/-- If the first choice can be gone on with, this is what comes of all choices. -/
theorem head?_flatMap_of_head? {α β : Type} {choices : List α} {next : α → List β} {a : α} {b : β}
    (first : choices.head? = some a) (goes : (next a).head? = some b) :
    (choices.flatMap next).head? = some b := by
  obtain ⟨others, rfl⟩ := List.head?_eq_some_iff.mp first
  rw [List.flatMap_cons, List.head?_append, goes, Option.some_or]

theorem head?_optionally_width (text : List Char) :
    ∃ width, (optionally (nonemptyRuns Text.isDecimalDigit) text).head? =
        some (width, text.dropWhile Text.isDecimalDigit) ∧
      width.getD [] = text.takeWhile Text.isDecimalDigit := by
  rcases nonemptyRuns_cases Text.isDecimalDigit text with ⟨empty, none⟩ | ⟨-, shorter, same⟩
  · have all : text.dropWhile Text.isDecimalDigit = text := by
      have parts := List.takeWhile_append_dropWhile (p := Text.isDecimalDigit) (l := text)
      rwa [empty] at parts
    exact ⟨.none, by rw [optionally, none, all]; rfl, empty.symm⟩
  · exact ⟨some _, by rw [optionally, same]; rfl, rfl⟩

theorem head?_optionally_pointedRuns (text : List Char) :
    (optionally pointedRuns text).head? = some (precision? text) := by
  by_cases point : ∃ rest, text = '.' :: rest
  · obtain ⟨rest, rfl⟩ := point
    rw [precision?, optionally, pointedRuns]
    rcases nonemptyRuns_cases Text.isDecimalDigit rest with ⟨empty, no⟩ | ⟨nonempty, shorter, same⟩
    · rw [no, if_pos (by simp [empty])]
      rfl
    · rw [same, if_neg (by simpa using nonempty)]
      rfl
  · have other : ∀ rest, text = '.' :: rest → False := fun rest same => point ⟨rest, same⟩
    rw [precision?, optionally, pointedRuns]
    · rfl
    · exact other
    · exact other

theorem head?_verbs_some {text rest : List Char} {verb : Char} (isVerb : isVerb verb = true)
    (same : text = verb :: rest) : (verbs text).head? = some (verb, rest) := by
  rw [same, verbs, if_pos isVerb]
  rfl

/-- Taking the most possible at every place leads to the specifier. -/
theorem head?_ways_of_specifier? {text rest : List Char} {s : Specifier}
    (found : specifier? text = some (s, rest)) : (Specifier.ways text).head? = some (s, rest) := by
  obtain ⟨shorter, runs⟩ := exists_runs isFlag text
  obtain ⟨width, digits, value⟩ := head?_optionally_width (text.dropWhile isFlag)
  have point := head?_optionally_pointedRuns ((text.dropWhile isFlag).dropWhile Text.isDecimalDigit)
  unfold specifier? at found
  dsimp only at found
  split at found
  case h_1 precision verb after parts =>
    split at found
    case isTrue isVerb =>
      cases found
      rw [parts] at point
      refine head?_flatMap_of_head? (by rw [runs]; rfl) (head?_flatMap_of_head? digits
        (head?_flatMap_of_head? point ?_))
      rw [List.head?_map, head?_verbs_some isVerb rfl, value]
      rfl
    case isFalse => cases found
  case h_2 => cases found

/-! ### No other way -/

theorem eq_of_mem_optionally {α : Type} {ways : List Char → List (α × List Char)}
    {text : List Char} {way : Option α × List Char} (mem : way ∈ optionally ways text) :
    (∃ a, way.1 = some a ∧ (a, way.2) ∈ ways text) ∨ way = (none, text) := by
  rcases List.mem_append.mp mem with something | nothing
  · obtain ⟨found, inside, rfl⟩ := List.mem_map.mp something
    exact .inl ⟨found.1, rfl, inside⟩
  · exact .inr (List.mem_singleton.mp nothing)

theorem eq_of_mem_widths {text : List Char} {way : Option (List Char) × List Char}
    (mem : way ∈ optionally (nonemptyRuns Text.isDecimalDigit) text) :
    text = way.1.getD [] ++ way.2 ∧ ∀ c ∈ way.1.getD [], Text.isDecimalDigit c = true := by
  rcases eq_of_mem_optionally mem with ⟨digits, same, found⟩ | rfl
  · obtain ⟨parts, -, all⟩ := eq_of_mem_nonemptyRuns found
    rw [same]
    exact ⟨parts, all⟩
  · exact ⟨rfl, List.forall_mem_nil _⟩

theorem eq_of_mem_precisions {text : List Char} {way : Option (List Char) × List Char}
    (mem : way ∈ optionally pointedRuns text) :
    text = pointed way.1 ++ way.2 ∧
      ∀ digits ∈ way.1, digits ≠ [] ∧ ∀ c ∈ digits, Text.isDecimalDigit c = true := by
  rcases eq_of_mem_optionally mem with ⟨digits, same, found⟩ | rfl
  · rw [same]
    unfold pointedRuns at found
    split at found
    · obtain ⟨parts, nonempty, all⟩ := eq_of_mem_nonemptyRuns found
      refine ⟨congrArg ('.' :: ·) parts, fun _ mem => ?_⟩
      cases mem
      exact ⟨nonempty, all⟩
    · cases found
  · exact ⟨rfl, fun _ mem => by cases mem⟩

theorem eq_of_mem_verbs {text : List Char} {way : Char × List Char} (mem : way ∈ verbs text) :
    text = way.1 :: way.2 ∧ isVerb way.1 = true := by
  unfold verbs at mem
  split at mem
  · split at mem
    case isTrue verb =>
      obtain rfl := List.mem_singleton.mp mem
      exact ⟨rfl, verb⟩
    case isFalse => cases mem
  · cases mem

/-- Zeros in front of the width are flags. -/
def Specifier.settled (s : Specifier) : Specifier :=
  { s with flags := s.flags ++ s.width.takeWhile isFlag, width := s.width.dropWhile isFlag }

theorem Specifier.body_settled (s : Specifier) : s.settled.body = s.body := by
  simp only [body, settled, List.append_assoc]
  rw [← List.append_assoc (s.width.takeWhile isFlag), List.takeWhile_append_dropWhile]

theorem Specifier.wellFormed_settled {s : Specifier} (flags : ∀ c ∈ s.flags, isFlag c = true)
    (width : ∀ c ∈ s.width, Text.isDecimalDigit c = true)
    (precision : ∀ digits ∈ s.precision,
      digits ≠ [] ∧ ∀ c ∈ digits, Text.isDecimalDigit c = true)
    (verb : isVerb s.verb = true) : s.settled.WellFormed := by
  refine ⟨?_, fun c first => eq_false_of_head?_dropWhile first, ?_, precision, verb⟩
  · exact List.forall_mem_append.mpr ⟨flags, List.all_eq_true.mp List.all_takeWhile⟩
  · exact fun c mem => width c ((List.dropWhile_suffix isFlag).subset mem)

theorem specifier?_of_mem_ways {text : List Char} {way : Specifier × List Char}
    (mem : way ∈ Specifier.ways text) : specifier? text = some (way.1.settled, way.2) := by
  simp only [Specifier.ways, List.mem_flatMap, List.mem_map] at mem
  obtain ⟨flags, flagRun, width, widths, precision, precisions, verb, letters, rfl⟩ := mem
  obtain ⟨afterFlags, allFlags⟩ := eq_of_mem_runs flagRun
  obtain ⟨afterWidth, widthDigits⟩ := eq_of_mem_widths widths
  obtain ⟨afterPrecision, precisionDigits⟩ := eq_of_mem_precisions precisions
  obtain ⟨afterVerb, isVerb⟩ := eq_of_mem_verbs letters
  refine specifier?_eq_some_iff.mpr ⟨?_, ?_⟩
  · exact Specifier.wellFormed_settled allFlags widthDigits precisionDigits isVerb
  · rw [Specifier.body_settled, afterFlags, afterWidth, afterPrecision, afterVerb]
    simp [Specifier.body]

theorem head?_ways (text : List Char) : (Specifier.ways text).head? = specifier? text := by
  cases found : specifier? text with
  | none =>
    rw [List.head?_eq_none_iff, List.eq_nil_iff_forall_not_mem]
    intro way mem
    rw [specifier?_of_mem_ways mem] at found
    cases found
  | some result => exact head?_ways_of_specifier? found

/-! ### Leftmost matches -/

/-- The leftmost match, with the text in front of it and the text after it. -/
def search : List Char → Option (List Char × Specifier × List Char)
  | [] => none
  | c :: text =>
    match if c = '%' then (Specifier.ways text).head? else none with
    | some (s, rest) => some ([], s, rest)
    | none => (search text).map fun found => (c :: found.1, found.2)

/-- Cuts a template at one leftmost match after the other. -/
inductive Matched : List Char → List Piece → Prop where
  | last {text : List Char} : search text = none → Matched text (text.map .ordinary)
  | next {text before rest : List Char} {s : Specifier} {parts : List Piece} :
      search text = some (before, s, rest) → Matched rest parts →
      Matched text (before.map .ordinary ++ .specifier s :: parts)

theorem search_cons_of_none {c : Char} {text : List Char}
    (none : c = '%' → specifier? text = none) :
    search (c :: text) = (search text).map fun found => (c :: found.1, found.2) := by
  rw [search, head?_ways]
  by_cases percent : c = '%'
  · rw [if_pos percent, none percent]
  · rw [if_neg percent]

theorem Matched.cons {c : Char} {text : List Char} {parts : List Piece}
    (none : c = '%' → specifier? text = none) (h : Matched text parts) :
    Matched (c :: text) (.ordinary c :: parts) := by
  cases h with
  | last unmatched => exact .last (by rw [search_cons_of_none none, unmatched]; rfl)
  | @next _ before rest s parts found later =>
    have found' : search (c :: text) = some (c :: before, s, rest) := by
      rw [search_cons_of_none none, found]
      rfl
    exact .next found' later

theorem matched_pieces (template : List Char) : Matched template (pieces template) := by
  fun_induction pieces template with
  | case1 => exact .last rfl
  | case2 text s rest found ih =>
    have first : search ('%' :: text) = some ([], s, rest) := by
      rw [search, if_pos rfl, head?_ways, found]
    exact .next first ih
  | case3 text none ih => exact ih.cons fun _ => none
  | case4 c text other ih => exact ih.cons fun percent => absurd percent other

end JsonQuery.Template
