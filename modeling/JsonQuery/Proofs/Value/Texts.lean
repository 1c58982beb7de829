import JsonQuery.Proofs.Decimal.Doubles
import JsonQuery.Proofs.Decimal.Shortest
import JsonQuery.Proofs.Decimal.Spelling
import JsonQuery.Json.Printer

/-!
# The two texts of a float

As text a float may be written with an exponent, in JSON it is not. For a finite float both are
spellings of the same decimal, which rounds to it, so they denote one number
(`float_texts_agree`). The exponent is there when the leading digit is far from the point.
-/

namespace JsonQuery

/-- The general spelling is the positional one, or it has an exponent and no superfluous digit. -/
theorem Dyadic.general_shortest {d : Dyadic} (double : d.IsDouble) :
    Remote d.shortest.value ∧ (∃ form : ScientificForm, d.shortest.general = form.text) ∨
      ¬Remote d.shortest.value ∧ d.shortest.general = d.shortest.positional := by
  by_cases zero : d.significand = 0
  · right
    rw [shortest_of_zero zero]
    exact ⟨fun remote => remote.1 (by simp [Decimal.value]), rfl⟩
  · have ends := (shortest_spec double zero).2.1
    have leading := Decimal.leading_eq_log (d := d.shortest) (by omega)
    have nonzero := (value_shortest_pos double zero).ne'
    by_cases near : -4 ≤ d.shortest.leading ∧ d.shortest.leading < 6
    · right
      rw [Decimal.general, if_pos near]
      rw [leading] at near
      exact ⟨fun remote => by have := remote.2; omega, rfl⟩
    · left
      rw [Decimal.general, if_neg near]
      rw [leading] at near
      exact ⟨⟨nonzero, by omega⟩, scientific_eq_text ends⟩

namespace Value

/-- The two texts of a finite float denote one number that rounds to it, the sign of zero included.
The first one is a `ScientificForm` just if the float is remote, by its own size or by that of the
number. Else the texts are the same. -/
theorem float_texts_agree {x : Float} (finite : x.isFinite = true) :
    ∃ (negative : Bool) (size : Dyadic) (q : ℚ), Binary64.ofFloat x = .finite negative size ∧
      size.Rounds q ∧
      decimalOf? (text (.float x)).toList = some (negative, q) ∧
      decimalOf? (Json.print Json.compact (.float x)).toList = some (negative, q) ∧
      ((∃ form : ScientificForm, (text (.float x)).toList = signed negative form.text) ↔
        Remote size.value) ∧
      (Remote q ↔ Remote size.value) ∧
      (¬Remote size.value → text (.float x) = Json.print Json.compact (.float x)) := by
  obtain ⟨negative, size, fields⟩ := (isFinite_iff x).mp finite
  have double : size.IsDouble := Binary64.isDouble_of_ofBits fields
  have general : text (.float x) = String.ofList (signed negative size.shortest.general) := by
    rw [text, generalText, fields]
  have positional : Json.print Json.compact (.float x) =
      String.ofList (signed negative size.shortest.positional) := by
    rw [Json.print, Json.Style.write, Json.Style.paint, if_neg (by decide), Json.numberText, fields]
    show String.ofList (positionalText x).toList = _
    rw [String.ofList_toList, positionalText, fields]
  rw [general, positional, String.toList_ofList, String.toList_ofList]
  refine ⟨negative, size, size.shortest.value, fields, Dyadic.rounds_shortest double,
    decimalOf?_signed (magnitudeOf?_general _) negative,
    decimalOf?_signed (magnitudeOf?_positional _) negative, ?_, remote_shortest_iff double, ?_⟩
  · rw [← remote_shortest_iff double]
    rcases Dyadic.general_shortest double with ⟨remote, form, same⟩ | ⟨near, same⟩
    · exact iff_of_true ⟨form, by rw [same]⟩ remote
    · apply iff_of_false _ near
      rintro ⟨form, spelled⟩
      have mem : 'e' ∈ signed negative form.text := by
        cases negative <;> simp [signed, form.mem_text]
      rw [← spelled, same] at mem
      have plain := Json.isNumeric_signed (fun _ => Json.isNumeric_positional size.shortest) _ mem
      exact absurd plain (by decide)
  · intro near
    rw [← remote_shortest_iff double] at near
    rcases Dyadic.general_shortest double with ⟨remote, -⟩ | ⟨-, same⟩
    · exact absurd remote near
    · rw [same]

theorem float_texts_agree_hundred_thousandth :
    (-0.00001 : Float).isFinite = true ∧
      ∃ q, decimalOf? "-1e-05".toList = some (true, q) ∧
        decimalOf? "-0.00001".toList = some (true, q) := by
  have finite : (-0.00001 : Float).isFinite = true := by decide +kernel
  obtain ⟨negative, size, q, fields, -, general, positional, -⟩ := float_texts_agree finite
  have texts : text (.float (-0.00001)) = "-1e-05" ∧
      Json.print Json.compact (.float (-0.00001)) = "-0.00001" := by decide +kernel
  rw [texts.1] at general
  rw [texts.2] at positional
  have sign : Binary64.ofFloat (-0.00001) = .finite true ⟨5902958103587057, -69⟩ := by
    decide +kernel
  cases sign.symm.trans fields
  exact ⟨finite, q, general, positional⟩

end Value

end JsonQuery
