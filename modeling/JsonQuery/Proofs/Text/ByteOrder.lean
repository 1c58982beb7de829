import JsonQuery.Proofs.Json.Literals

/-!
# The order of texts

Texts are ordered by their characters, and this is also the order of their bytes in UTF-8
(`lt_iff_bytesOf_lt`): of two characters the greater one has as many bytes or more, and the first
byte by which they differ is the greater one.
-/

namespace JsonQuery

open Json (bytesOf bytesOf_cons bytesOf_injective)

/-- The first byte by which two lists differ decides. -/
theorem cons_ofNat_lt {a b : Nat} {x y : List UInt8} (hb : b < 256) (le : a ≤ b)
    (rest : a = b → x < y) : UInt8.ofNat a :: x < UInt8.ofNat b :: y := by
  refine List.cons_lt_cons_iff.mpr ?_
  rcases Nat.lt_or_eq_of_le le with lt | same
  · refine .inl (UInt8.lt_iff_toNat_lt.mpr ?_)
    rwa [UInt8.toNat_ofNat_of_lt' (Nat.lt_trans lt hb), UInt8.toNat_ofNat_of_lt' hb]
  · exact .inr ⟨congrArg UInt8.ofNat same, rest same⟩

theorem cons_ofNat_lt_of_lt {a b : Nat} {x y : List UInt8} (hb : b < 256) (lt : a < b) :
    UInt8.ofNat a :: x < UInt8.ofNat b :: y :=
  cons_ofNat_lt hb (Nat.le_of_lt lt) fun same => absurd same (Nat.ne_of_lt lt)

/-- Greater characters have greater bytes, whatever follows. -/
theorem utf8EncodeChar_append_lt {c d : Char} (lt : c < d) (x y : List UInt8) :
    String.utf8EncodeChar c ++ x < String.utf8EncodeChar d ++ y := by
  have codes : c.val.toNat < d.val.toNat := UInt32.lt_iff_toNat_lt.mp lt
  have bound : d.val.toNat < 0x110000 := by
    rcases d.valid with low | ⟨-, high⟩
    · exact Nat.lt_trans low (by decide)
    · exact high
  unfold String.utf8EncodeChar
  generalize c.val.toNat = v at codes
  generalize d.val.toNat = w at codes bound
  dsimp only
  -- with fewer bytes the first one is smaller, with as many the first in which they differ
  by_cases one : v ≤ 0x7f
  · rw [if_pos one]
    split_ifs <;> exact cons_ofNat_lt_of_lt (by omega) (by omega)
  rw [if_neg one, if_neg (show ¬w ≤ 0x7f by omega)]
  by_cases two : v ≤ 0x7ff
  · rw [if_pos two]
    split_ifs
    · refine cons_ofNat_lt (by omega) (by omega) fun first => ?_
      exact cons_ofNat_lt_of_lt (by omega) (by omega)
    all_goals exact cons_ofNat_lt_of_lt (by omega) (by omega)
  rw [if_neg two, if_neg (show ¬w ≤ 0x7ff by omega)]
  by_cases three : v ≤ 0xffff
  · rw [if_pos three]
    split_ifs
    · refine cons_ofNat_lt (by omega) (by omega) fun first => ?_
      refine cons_ofNat_lt (by omega) (by omega) fun second => ?_
      exact cons_ofNat_lt_of_lt (by omega) (by omega)
    · exact cons_ofNat_lt_of_lt (by omega) (by omega)
  rw [if_neg three, if_neg (show ¬w ≤ 0xffff by omega)]
  refine cons_ofNat_lt (by omega) (by omega) fun first => ?_
  refine cons_ofNat_lt (by omega) (by omega) fun second => ?_
  refine cons_ofNat_lt (by omega) (by omega) fun third => ?_
  exact cons_ofNat_lt_of_lt (by omega) (by omega)

theorem bytesOf_lt {a b : List Char} (lt : a < b) : bytesOf a < bytesOf b := by
  induction a generalizing b with
  | nil =>
    cases b with
    | nil => exact absurd lt (List.lt_irrefl _)
    | cons d b =>
      have bytes : bytesOf (d :: b) ≠ [] := fun empty =>
        List.cons_ne_nil d b (bytesOf_injective empty)
      obtain ⟨byte, others, same⟩ := List.exists_cons_of_ne_nil bytes
      rw [same]
      exact List.nil_lt_cons byte others
  | cons c a ih =>
    cases b with
    | nil => exact absurd lt (List.not_lt_nil _)
    | cons d b =>
      rw [bytesOf_cons, bytesOf_cons]
      rcases List.cons_lt_cons_iff.mp lt with first | ⟨rfl, more⟩
      · exact utf8EncodeChar_append_lt first _ _
      · exact List.append_left_lt (ih more)

/-- Texts have the order of their bytes. -/
theorem lt_iff_bytesOf_lt {a b : String} : a < b ↔ bytesOf a.toList < bytesOf b.toList := by
  refine ⟨bytesOf_lt, fun lt => ?_⟩
  by_contra not
  by_cases same : a = b
  · subst same
    exact List.lt_irrefl _ lt
  · exact List.lt_asymm lt (bytesOf_lt (Entries.lt_of_not_lt_of_ne not same))

end JsonQuery
