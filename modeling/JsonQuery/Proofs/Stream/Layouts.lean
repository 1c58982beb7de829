import JsonQuery.Proofs.Json.Colors
import JsonQuery.Proofs.Json.Spacing
import JsonQuery.Proofs.Stream.Delivery

/-!
# Outputs in different styles

In the compact layout a printed value has no line feed, so that a run writes one line for each
record. Colors can be taken out of any printed value again, and the indented layout adds no control
characters but the ends of its lines (`printed_lines`). How a run ends and what its results are does
not depend on how they are printed, and the indented text of a result is its compact text with
spaces and line feeds between the parts (`run_layouts`).
-/

namespace JsonQuery.Stream

open Json (Style Visible isControl)
open Query (Expression)

/-! ### Records -/

/-- A run that ends like this has got through `count` records. -/
def Passed (count : Nat) : Except RunError Nat → Prop
  | .ok processed => processed = count
  | .error (.decode record _) | .error (.eval record _) => record = count + 1
  | .error _ => count = 0

section Runs

variable [Platform]

theorem passed_records (e : Expression) (processed : Nat) (values : List Value)
    (ending : Option Json.DecodeError) :
    Passed (processed + (records e processed values ending).1.length)
      (records e processed values ending).2 := by
  induction values generalizing processed with
  | nil => cases ending <;> rfl
  | cons value rest ih =>
    rw [records]
    cases e.evaluate value with
    | error error => rfl
    | ok result =>
      have later := ih (processed + 1)
      dsimp only
      rwa [List.length_cons, Nat.add_comm _ 1, ← Nat.add_assoc]

/-- The results of a run and its end are those of any other style. -/
theorem exists_results (query : String) (input : List UInt8) :
    ∃ (results : List Value) (last : Except RunError Nat), Passed results.length last ∧
      ∀ style, run query style none input = ⟨last, encoded (results.map (Json.print style))⟩ := by
  cases compiled : Query.compile query with
  | error error =>
    refine ⟨[], .error (.compile error), rfl, fun style => ?_⟩
    exact run_of_compile_error compiled style none input
  | ok e =>
    have passed := passed_records e 0 (Json.decodeAll input).1 (Json.decodeAll input).2
    rw [Nat.zero_add] at passed
    exact ⟨_, _, passed, fun style => run_unlimited compiled style input⟩

end Runs

/-! ### Visible texts -/

theorem visible_iff {text : List Char} :
    Visible text ↔ ∀ c ∈ text, 0x20 ≤ c.toNat ∧ (c.toNat < 0x7f ∨ 0xa0 ≤ c.toNat) := by
  refine forall₂_congr fun c _ => ?_
  simp only [isControl, Bool.or_eq_false_iff, Bool.and_eq_false_iff, decide_eq_false_iff_not]
  omega

theorem visible_compact (v : Value) : Visible (Json.print Json.compact v).toList := by
  rw [Json.print, String.toList_ofList]
  intro c mem
  cases control : isControl c with
  | false => rfl
  | true => cases (Style.control_write rfl 0 v c mem control).2

/-- One visible line for each record in front of the end. -/
theorem lines_of_run [Platform] (query : String) (input : List UInt8) :
    ∃ texts : List String, (run query Json.compact none input).output = encoded texts ∧
      Passed texts.length (run query Json.compact none input).result ∧
      ∀ text ∈ texts, Visible text.toList := by
  obtain ⟨results, last, passed, same⟩ := exists_results query input
  rw [same]
  refine ⟨_, rfl, ?_, List.forall_mem_map.mpr fun v _ => visible_compact v⟩
  rwa [List.length_map]

/-- Without its color sequences a colored value is what is printed without colors. In the compact
layout no character is a control character, so every record of a run is one line. In the indented
layout only the ends of the lines are, and the strings and keys of a value have no influence on how
many there are. -/
theorem printed_lines [Platform] :
    (∀ v : Value,
      (∀ layout colorizes, Json.uncolored (Json.print ⟨layout, true, colorizes⟩ v).toList =
        (Json.print ⟨layout, false, colorizes⟩ v).toList) ∧
      (∀ c ∈ (Json.print Json.compact v).toList,
        0x20 ≤ c.toNat ∧ (c.toNat < 0x7f ∨ 0xa0 ≤ c.toNat)) ∧
      (∀ c ∈ (Json.print Json.pretty v).toList,
        c = '\n' ∨ 0x20 ≤ c.toNat ∧ (c.toNat < 0x7f ∨ 0xa0 ≤ c.toNat)) ∧
      (Json.print Json.pretty v).toList.count '\n' + 1 = v.lineCount) ∧
    ∀ query input, ∃ texts : List String,
      (run query Json.compact none input).output = encoded texts ∧
      Passed texts.length (run query Json.compact none input).result ∧
      ∀ text ∈ texts, ∀ c ∈ text.toList,
        0x20 ≤ c.toNat ∧ (c.toNat < 0x7f ∨ 0xa0 ≤ c.toNat) := by
  refine ⟨fun v => ⟨fun layout colorizes => ?_, visible_iff.mp (visible_compact v), ?_, ?_⟩,
    fun query input => ?_⟩
  · have removed := @Style.uncolors_write ⟨layout, true, colorizes⟩ 0 v []
    rw [List.append_nil, Json.uncolored_nil, List.append_nil] at removed
    rw [Json.print, Json.print, String.toList_ofList, String.toList_ofList, removed]
    rfl
  · rw [Json.print, String.toList_ofList]
    intro c mem
    cases control : isControl c with
    | false => exact .inr (visible_iff.mp (List.forall_mem_singleton.mpr control) c (by simp))
    | true => exact .inl (Style.control_write rfl 0 v c mem control).1
  · rw [Json.print, String.toList_ofList]
    exact Style.count_write rfl rfl 0 v
  · obtain ⟨texts, output, passed, visible⟩ := lines_of_run query input
    exact ⟨texts, output, passed, fun text mem => visible_iff.mp (visible text mem)⟩

/-! ### The two layouts -/

theorem condenses_print (color colorizes : Bool) (v : Value) :
    Json.Condenses (Json.print ⟨true, color, colorizes⟩ v).toList
      (Json.print ⟨false, color, colorizes⟩ v).toList := by
  rw [Json.print, Json.print, String.toList_ofList, String.toList_ofList]
  exact Style.condenses_write 0 0 v

/-- Without the spaces and line feeds outside of its string literals the indented text of a value is
the compact one, which has no blanks there. A run ends in the same way in both layouts, and the
outputs are the texts of the same results, of which there are as many as the end says. -/
theorem run_layouts [Platform] (color colorizes : Bool) :
    (∀ v : Value,
      Json.condensed (Json.print ⟨true, color, colorizes⟩ v).toList =
        (Json.print ⟨false, color, colorizes⟩ v).toList ∧
      Json.Tight (Json.print ⟨false, color, colorizes⟩ v).toList) ∧
    ∀ query input,
      (run query ⟨true, color, colorizes⟩ none input).result =
        (run query ⟨false, color, colorizes⟩ none input).result ∧
      ∃ results : List Value,
        Passed results.length (run query ⟨true, color, colorizes⟩ none input).result ∧
        (run query ⟨true, color, colorizes⟩ none input).output =
          encoded (results.map (Json.print ⟨true, color, colorizes⟩)) ∧
        (run query ⟨false, color, colorizes⟩ none input).output =
          encoded (results.map (Json.print ⟨false, color, colorizes⟩)) := by
  refine ⟨fun v => ?_, fun query input => ?_⟩
  · have condenses := condenses_print color colorizes v
    exact ⟨condenses.text, condenses.tight⟩
  · obtain ⟨results, last, passed, same⟩ := exists_results query input
    rw [same, same]
    exact ⟨rfl, results, passed, rfl, rfl⟩

end JsonQuery.Stream
