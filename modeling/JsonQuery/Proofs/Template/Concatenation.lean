import JsonQuery.Proofs.Template.Substitution
import Mathlib.Data.List.DropRight

/-!
# Templates in a row

The specifiers of a template stay what they are when text is added behind it, unless a `%` is left
over behind the last one: then the added text may complete it. Without such a `%` the pieces of two
templates in a row are the pieces of the one and then of the other (`pieces_append`), and they are
filled one after the other (`fill_append`).
-/

namespace JsonQuery.Template

def Piece.isOrdinary : Piece → Bool
  | .ordinary _ => true
  | .specifier _ => false

/-- The text behind the last specifier. -/
def remainder (parts : List Piece) : List Char :=
  (parts.rtakeWhile Piece.isOrdinary).flatMap Piece.spelling

theorem remainder_specifier (s : Specifier) (parts : List Piece) :
    remainder (.specifier s :: parts) = remainder parts := by
  rw [remainder, remainder, List.rtakeWhile, List.rtakeWhile, List.reverse_cons,
    List.takeWhile_append]
  split
  case isTrue full =>
    have stop : [Piece.specifier s].takeWhile Piece.isOrdinary = [] := rfl
    rw [stop, List.append_nil, (List.takeWhile_prefix _).eq_of_length full]
  case isFalse => rfl

/-- An ordinary character is left over if no specifier follows. -/
theorem remainder_ordinary (c : Char) (parts : List Piece) :
    remainder (.ordinary c :: parts) =
      if parts.all Piece.isOrdinary then c :: remainder parts else remainder parts := by
  have all : (parts.reverse.takeWhile Piece.isOrdinary).length = parts.reverse.length ↔
      parts.all Piece.isOrdinary = true := by
    rw [← List.all_reverse, List.all_eq_true, ← List.takeWhile_eq_self_iff]
    exact ⟨(List.takeWhile_prefix _).eq_of_length, congrArg List.length⟩
  rw [remainder, remainder, List.rtakeWhile, List.rtakeWhile, List.reverse_cons,
    List.takeWhile_append]
  by_cases ordinary : parts.all Piece.isOrdinary = true
  · rw [if_pos (all.mpr ordinary), if_pos ordinary]
    have full := (List.takeWhile_prefix Piece.isOrdinary).eq_of_length (all.mpr ordinary)
    have more : [Piece.ordinary c].takeWhile Piece.isOrdinary = [.ordinary c] := rfl
    rw [more, full, List.reverse_append, List.flatMap_append]
    rfl
  · rw [if_neg fun full => ordinary (all.mp full), if_neg ordinary]

theorem pieces_of_not_mem {text : List Char} (plain : '%' ∉ text) :
    pieces text = text.map .ordinary := by
  induction text with
  | nil => rw [pieces, List.map_nil]
  | cons c text ih =>
    obtain ⟨other, others⟩ := not_or.mp (mt List.mem_cons.mpr plain)
    rw [pieces, if_neg (Ne.symm other), ih others, List.map_cons]

/-- In front of its verb a specifier holds no second `%`. -/
theorem Specifier.WellFormed.not_mem_front {s : Specifier} (wf : s.WellFormed) :
    '%' ∉ s.flags ++ s.width ++ pointed s.precision := by
  have digit : Text.isDecimalDigit '%' = false := isDecimalDigit_eq_isDigit (by decide)
  intro mem
  rcases List.mem_append.mp mem with mem | mem
  · rcases List.mem_append.mp mem with mem | mem
    · exact absurd (wf.flags _ mem) (by decide)
    · exact absurd (wf.width _ mem) (by simp [digit])
  · cases precision : s.precision with
    | none => simp [precision, pointed] at mem
    | some digits =>
      rw [precision] at mem
      rcases List.mem_cons.mp mem with point | mem
      · exact absurd point (by decide)
      · exact absurd ((wf.precision digits precision).2 _ mem) (by simp [digit])

/-- What becomes a specifier only by the text behind it is all in front of the verb. -/
theorem not_mem_of_completed {text more rest : List Char} {s : Specifier}
    (none : specifier? text = none) (found : specifier? (text ++ more) = some (s, rest)) :
    '%' ∉ text := by
  obtain ⟨wf, same⟩ := specifier?_eq_some_iff.mp found
  rcases List.append_eq_append_iff.mp same with ⟨missing, body, -⟩ | ⟨extra, short, -⟩
  · rcases List.eq_nil_or_concat' missing with rfl | ⟨others, last, rfl⟩
    · rw [List.append_nil] at body
      rw [← body, ← List.append_nil s.body, wf.specifier?_body] at none
      cases none
    · have front : s.flags ++ s.width ++ pointed s.precision = text ++ others := by
        have whole : (s.flags ++ s.width ++ pointed s.precision) ++ [s.verb] =
            (text ++ others) ++ [last] := by
          rw [List.append_assoc text]
          exact body
        exact (List.append_inj' whole rfl).1
      intro mem
      refine wf.not_mem_front ?_
      rw [front]
      exact List.mem_append_left _ mem
  · rw [short, wf.specifier?_body] at none
    cases none

/-! ### Pieces of two templates -/

theorem pieces_of_specifier? {text rest : List Char} {s : Specifier}
    (found : specifier? text = some (s, rest)) :
    pieces ('%' :: text) = .specifier s :: pieces rest := by
  obtain ⟨wf, same⟩ := cons_eq_spelling_iff.mpr ⟨rfl, found⟩
  exact (Scan.specifier wf same (scan_pieces rest)).eq_pieces.symm

theorem pieces_of_none {text : List Char} (none : specifier? text = none) :
    pieces ('%' :: text) = .ordinary '%' :: pieces text := by
  refine (Scan.ordinary (fun s rest wf same => ?_) (scan_pieces text)).eq_pieces.symm
  rw [(cons_eq_spelling_iff.mp ⟨wf, same⟩).2] at none
  cases none

/-- No specifier begins in the one text and ends in the other. -/
theorem pieces_append {a : List Char} (closed : '%' ∉ remainder (pieces a)) (b : List Char) :
    pieces (a ++ b) = pieces a ++ pieces b := by
  fun_induction pieces a with
  | case1 => rfl
  | case2 text s rest found ih =>
    have longer : specifier? (text ++ b) = some (s, rest ++ b) := by
      obtain ⟨wf, same⟩ := specifier?_eq_some_iff.mp found
      rw [same, List.append_assoc, wf.specifier?_body]
    rw [remainder_specifier] at closed
    rw [List.cons_append, pieces_of_specifier? longer, ih closed, List.cons_append]
  | case3 text none ih =>
    rw [remainder_ordinary] at closed
    split at closed
    · exact absurd List.mem_cons_self closed
    · rename_i later
      have longer : specifier? (text ++ b) = .none := by
        refine Option.eq_none_iff_forall_ne_some.mpr fun result found => later ?_
        rw [pieces_of_not_mem (not_mem_of_completed none found)]
        simp [Piece.isOrdinary]
      rw [List.cons_append, pieces_of_none longer, ih closed, List.cons_append]
  | case4 c text other ih =>
    have closed' : '%' ∉ remainder (pieces text) := by
      rw [remainder_ordinary] at closed
      split at closed
      · exact fun mem => closed (List.mem_cons_of_mem c mem)
      · exact closed
    rw [List.cons_append, pieces, if_neg other, ih closed', List.cons_append]

/-- If no `%` is left over behind the last specifier of the one template, then both are filled one
after the other, and the second gets the values that are left when each specifier of the first has
taken its value, as long as there are any. Specifiers with the verb `%` take none, and neither do
those out of range. -/
theorem fill_append (before after : String) (values : List Value)
    (closed : '%' ∉ remainder (pieces before.toList)) :
    fill (before ++ after) values =
      fill before values ++
        fill after (values.drop (min (demand (pieces before.toList)) values.length)) := by
  have capped : values.drop (min (demand (pieces before.toList)) values.length) =
      values.drop (demand (pieces before.toList)) :=
    List.drop_eq_drop_iff.mpr (by omega)
  rw [fill, String.toList_append, pieces_append closed, fillPieces_append, String.ofList_append,
    capped, fill, fill]

/-- The stray `%!`, the escaped `%%` and the width out of range take no value. -/
theorem fill_append_mixed :
    '%' ∉ remainder (pieces "%!%d%%%9999999s,".toList) ∧
      fill ("%!%d%%%9999999s," ++ "%x%s") [.integer 7, .integer 255] =
        "%!7%%9999999s," ++ "ff%s" := by
  have parts : pieces "%!%d%%%9999999s,".toList =
      [.ordinary '%', .ordinary '!', .specifier ⟨[], [], none, 'd'⟩,
        .specifier ⟨[], [], none, '%'⟩, .specifier ⟨[], "9999999".toList, none, 's'⟩,
        .ordinary ','] := by cbv
  have closed : '%' ∉ remainder (pieces "%!%d%%%9999999s,".toList) := by
    rw [parts]
    decide
  have taken : demand (pieces "%!%d%%%9999999s,".toList) = 1 := by
    rw [parts]
    decide +kernel
  have first : fill "%!%d%%%9999999s," [.integer 7, .integer 255] = "%!7%%9999999s," := by
    decide +kernel
  have second : fill "%x%s" [.integer 255] = "ff%s" := by decide +kernel
  refine ⟨closed, ?_⟩
  rw [fill_append _ _ _ closed, taken, first]
  exact congrArg _ second

end JsonQuery.Template
