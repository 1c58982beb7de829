import JsonQuery.Proofs.Query.Expression.Traversal

/-!
# Ranges as positions

A range holds the integers from its first one on, and none of them wraps around
(`exists_integers`). As positions in an array they take a slice out of it (`element_range`). Where
the slice reaches beyond the array there is `null`, so the leaf can fail only on items of the array
(`slice_isOk_iff`, `slice_eq_error`).
-/

namespace JsonQuery.Query

/-! ### The integers of a range -/

section Range

variable {lo hi : Int64}

/-- The number of integers from `lo` on that are less than `hi`. -/
def span (lo hi : Int64) : Nat := (hi.toInt - lo.toInt).toNat

def nth (lo : Int64) (i : Nat) : Int64 := Int64.ofInt (lo.toInt + i)

theorem toInt_nth {i : Nat} (inside : i < span lo hi) : (nth lo i).toInt = lo.toInt + i := by
  have low := Int64.le_toInt lo
  have high := Int64.toInt_lt hi
  rw [span] at inside
  exact Int64.toInt_ofInt_of_le (by omega) (by omega)

theorem span_eq (lo hi : Int64) : (span lo hi : Int) = max 0 (hi.toInt - lo.toInt) := by
  rw [span]
  omega

variable [Platform]

/-- A range without integers needs no room. -/
theorem rangeOf_eq (lo hi : Int64) :
    rangeOf lo hi =
      if span lo hi = 0 ∨ span lo hi < Value.integerBound ∧ Platform.hasRoom (span lo hi) then
        .ok (.array ((List.range (span lo hi)).map fun i => .integer (nth lo i)))
      else .error (.rangeTooLarge lo hi) := by
  have size := span_eq lo hi
  unfold rangeOf
  split
  case isTrue order =>
    have nothing : span lo hi = 0 := by
      rw [Int64.le_iff_toInt_le] at order
      omega
    rw [nothing, if_pos (Or.inl rfl)]
    rfl
  case isFalse order =>
    have something : span lo hi ≠ 0 := by
      rw [Int64.le_iff_toInt_le] at order
      omega
    simp only [something, false_or]
    rfl

theorem rangeOf_eq_ok {v : Value} (ok : rangeOf lo hi = .ok v) :
    v = .array ((List.range (span lo hi)).map fun i => .integer (nth lo i)) := by
  rw [rangeOf_eq] at ok
  split at ok
  · exact (Except.ok.inj ok).symm
  · cases ok

/-- A range that is not too large holds as many integers as there are between its ends. -/
theorem exists_integers {v : Value} (ok : rangeOf lo hi = .ok v) :
    ∃ ns : List Int64, v = .array (ns.map .integer) ∧
      (ns.length : Int) = max 0 (hi.toInt - lo.toInt) ∧
      ∀ (i : Nat) n, ns[i]? = some n → n.toInt = lo.toInt + i := by
  refine ⟨(List.range (span lo hi)).map (nth lo), ?_, ?_, ?_⟩
  · rw [rangeOf_eq_ok ok, List.map_map]
    rfl
  · simp [span_eq]
  · intro i n found
    obtain ⟨inside, rfl⟩ := List.getElem?_eq_some_iff.mp found
    simp only [List.length_map, List.length_range] at inside
    simp [toInt_nth inside]

/-- Ends that are further apart than an integer can say are too far apart. -/
theorem rangeOf_of_wide (wide : Int64.maxValue.toInt < hi.toInt - lo.toInt) :
    rangeOf lo hi = .error (.rangeTooLarge lo hi) := by
  have most : Int64.maxValue.toInt = 9223372036854775807 := rfl
  have size := span_eq lo hi
  have large : ¬(span lo hi = 0 ∨
      span lo hi < Value.integerBound ∧ Platform.hasRoom (span lo hi)) := by
    rw [Value.integerBound]
    omega
  rw [rangeOf_eq, if_neg large]

end Range

/-! ### Items at integers -/

/-- The item at an index, which may also lie in front of the items or behind them. -/
def itemAt? (items : List Value) (index : Int) : Option Value :=
  if 0 ≤ index then items[index.toNat]? else none

theorem itemAt?_eq_some_iff {items : List Value} {index : Int} {item : Value} :
    itemAt? items index = some item ↔ ∃ j : Nat, (j : Int) = index ∧ items[j]? = some item := by
  unfold itemAt?
  split
  case isTrue ahead =>
    constructor
    · intro found
      exact ⟨index.toNat, Int.toNat_of_nonneg ahead, found⟩
    · rintro ⟨j, rfl, found⟩
      exact found
  case isFalse before =>
    constructor
    · intro found
      cases found
    · rintro ⟨j, rfl, -⟩
      omega

theorem itemAt?_eq_none {items : List Value} {index : Int}
    (outside : ¬(0 ≤ index ∧ index < items.length)) : itemAt? items index = none := by
  refine Option.eq_none_iff_forall_ne_some.mpr fun item found => outside ?_
  obtain ⟨j, rfl, there⟩ := itemAt?_eq_some_iff.mp found
  have inside := (List.getElem?_eq_some_iff.mp there).1
  omega

section PartOf

variable {leaf : Value → Result Value} {part : Option Value}

theorem partOf_isOk_iff :
    (∃ w, partOf leaf part = .ok w) ↔ ∀ item, part = some item → ∃ w, leaf item = .ok w := by
  cases part <;> simp [partOf]

theorem eq_some_of_partOf {e : EvalError} (failed : partOf leaf part = .error e) :
    ∃ item, part = some item ∧ leaf item = .error e := by
  cases part with
  | none => cases failed
  | some item => exact ⟨item, rfl, failed⟩

end PartOf

/-! ### Slices -/

section Slice

variable {leaf : Value → Result Value} {items : List Value} {first : Int} {size : Nat}

/-- The leaf on so many items from an index on, and `null` where there is none. -/
def slice (leaf : Value → Result Value) (items : List Value) (first : Int) (size : Nat) :
    Result (List Value) :=
  (List.range size).mapM fun (i : Nat) => partOf leaf (itemAt? items (first + i))

theorem each_slice :
    Each (fun (i : Nat) => partOf leaf (itemAt? items (first + i))) (List.range size)
      (slice leaf items first size) :=
  each_mapM _ _

theorem slice_isOk_iff :
    (∃ us, slice leaf items first size = .ok us) ↔
      ∀ (j : Nat) item, items[j]? = some item → first ≤ j → j < first + size →
        ∃ u, leaf item = .ok u := by
  rw [each_slice.isOk_iff]
  constructor
  · intro all j item there low high
    have inside : (j - first).toNat ∈ List.range size := List.mem_range.mpr (by omega)
    have addressed : itemAt? items (first + (j - first).toNat) = some item :=
      itemAt?_eq_some_iff.mpr ⟨j, by omega, there⟩
    exact partOf_isOk_iff.mp (all _ inside) item addressed
  · intro all i mem
    refine partOf_isOk_iff.mpr fun item addressed => ?_
    obtain ⟨j, index, there⟩ := itemAt?_eq_some_iff.mp addressed
    have inside := List.mem_range.mp mem
    exact all j item there (by omega) (by omega)

theorem length_slice {us : List Value} (ok : slice leaf items first size = .ok us) :
    us.length = size := by
  have each : Each _ _ (.ok us) := ok ▸ each_slice
  rw [each.length, List.length_range]

theorem getElem?_slice {us : List Value} (ok : slice leaf items first size = .ok us) {i : Nat}
    {u : Value} (found : us[i]? = some u) : partOf leaf (itemAt? items (first + i)) = .ok u := by
  have each : Each _ _ (.ok us) := ok ▸ each_slice
  obtain ⟨k, here, applied⟩ := each.of_getElem? found
  obtain ⟨inside, rfl⟩ := List.getElem?_eq_some_iff.mp here
  rwa [List.getElem_range] at applied

/-- A slice fails on the first item in it on which the leaf fails. -/
theorem slice_eq_error {e : EvalError} (failed : slice leaf items first size = .error e) :
    ∃ (j : Nat) (item : Value), items[j]? = some item ∧ first ≤ j ∧ j < first + size ∧
      leaf item = .error e ∧ ∀ k < j, first ≤ k → ∀ earlier, items[k]? = some earlier →
        ∃ u, leaf earlier = .ok u := by
  have each : Each _ _ (.error e) := failed ▸ each_slice
  obtain ⟨i, k, here, fails, settled⟩ := each
  obtain ⟨inside, rfl⟩ := List.getElem?_eq_some_iff.mp here
  rw [List.length_range] at inside
  rw [List.getElem_range] at fails
  obtain ⟨item, addressed, fails⟩ := eq_some_of_partOf fails
  obtain ⟨j, index, there⟩ := itemAt?_eq_some_iff.mp addressed
  refine ⟨j, item, there, by omega, by omega, fails, ?_⟩
  intro k before low earlier place
  have index : first + (k - first).toNat = k := by omega
  have range : (List.range size)[(k - first).toNat]? = some (k - first).toNat :=
    List.getElem?_range (by omega)
  refine partOf_isOk_iff.mp (settled _ (by omega) _ range) earlier ?_
  exact itemAt?_eq_some_iff.mpr ⟨k, index.symm, place⟩

end Slice

namespace Expression

section Evaluation

variable [Platform] {first last f : Expression} {items : List Value} {lo hi : Int64}

/-- What a range addresses, the leaf applied to it if it is there. -/
theorem element_range (begins : first.evaluate (.array items) = .ok (.integer lo))
    (ends : last.evaluate (.array items) = .ok (.integer hi)) {v : Value}
    (ranges : rangeOf lo hi = .ok v) :
    (element (range first last) f).evaluate (.array items) =
      (slice f.evaluate items lo.toInt (span lo hi)).map .array := by
  have positions : (range first last).evaluate (.array items) =
      .ok (.array ((List.range (span lo hi)).map fun i => .integer (nth lo i))) := by
    rw [evaluate, begins, ends, ← rangeOf_eq_ok ranges, ← ranges]
    rfl
  have suits : ∀ i ∈ List.range (span lo hi),
      Suits (.array items) (.integer (nth lo i)) := fun i _ => .index items (nth lo i)
  have parts : ∀ i ∈ List.range (span lo hi),
      partOf f.evaluate (child? (.array items) (.integer (nth lo i))) =
        partOf f.evaluate (itemAt? items (lo.toInt + i)) := by
    intro i mem
    rw [child?, toInt_nth (List.mem_range.mp mem), itemAt?]
  rw [evaluate, positions]
  exact resolve_map f.evaluate suits parts

/-- A range is exact. As positions in an array it yields as many values as it has integers, `null`
where there is no item, and it fails on the first of its items on which the leaf fails. -/
theorem evaluate_range (lo hi : Int64) :
    (∀ v, rangeOf lo hi = .ok v → ∃ ns : List Int64, v = .array (ns.map .integer) ∧
      (ns.length : Int) = max 0 (hi.toInt - lo.toInt) ∧
      ∀ (i : Nat) n, ns[i]? = some n → n.toInt = lo.toInt + i) ∧
    (Int64.maxValue.toInt < hi.toInt - lo.toInt →
      ∃ e, rangeOf lo hi = .error e ∧ e.family = .outOfDomain) ∧
    ∀ (first last f : Expression) (items : List Value) (v : Value),
      first.evaluate (.array items) = .ok (.integer lo) →
      last.evaluate (.array items) = .ok (.integer hi) → rangeOf lo hi = .ok v →
      let sliced := (element (range first last) f).evaluate (.array items)
      ((∃ w, sliced = .ok w) ↔ ∀ (j : Nat) item, items[j]? = some item → lo.toInt ≤ j →
        j < hi.toInt → ∃ u, f.evaluate item = .ok u) ∧
      (∀ w, sliced = .ok w → ∃ us : List Value, w = .array us ∧
        (us.length : Int) = max 0 (hi.toInt - lo.toInt) ∧
        ∀ (i : Nat) u, us[i]? = some u →
          (∀ (j : Nat) item, (j : Int) = lo.toInt + i → items[j]? = some item →
            f.evaluate item = .ok u) ∧
          (¬(0 ≤ lo.toInt + i ∧ lo.toInt + i < items.length) → u = .null)) ∧
      ∀ e, sliced = .error e → ∃ (j : Nat) (item : Value), items[j]? = some item ∧
        lo.toInt ≤ j ∧ j < hi.toInt ∧ f.evaluate item = .error e ∧
        ∀ k < j, lo.toInt ≤ k → ∀ earlier, items[k]? = some earlier →
          ∃ u, f.evaluate earlier = .ok u := by
  refine ⟨fun v ok => exists_integers ok, fun wide => ⟨_, rangeOf_of_wide wide, rfl⟩, ?_⟩
  intro first last f items v begins ends ranges sliced
  have same : sliced = (slice f.evaluate items lo.toInt (span lo hi)).map .array :=
    element_range begins ends ranges
  have size := span_eq lo hi
  rw [same]
  refine ⟨?success, ?parts, ?failure⟩
  case success =>
    rw [map_isOk_iff, slice_isOk_iff]
    constructor
    · intro all j item there low high
      exact all j item there low (by omega)
    · intro all j item there low high
      exact all j item there low (by omega)
  case parts =>
    intro w ok
    obtain ⟨us, sliced, rfl⟩ := map_eq_ok_iff.mp ok
    refine ⟨us, rfl, by rw [length_slice sliced, size], fun i u found => ?_⟩
    have part := getElem?_slice sliced found
    constructor
    · intro j item index there
      rwa [itemAt?_eq_some_iff.mpr ⟨j, index, there⟩] at part
    · intro outside
      rw [itemAt?_eq_none outside] at part
      exact (Except.ok.inj part).symm
  case failure =>
    intro e failed
    obtain ⟨j, item, there, low, high, fails, settled⟩ :=
      slice_eq_error (map_eq_error_iff.mp failed)
    exact ⟨j, item, there, low, by omega, fails, settled⟩

end Evaluation

theorem evaluate_range_around :
    let items : List Value := [.boolean true, .string "b"]
    let around := element (range (constant (.integer (-1))) (constant (.integer 3))) identity
    (∃ v, rangeOf (-1) 3 = .ok v) ∧
    (∃ us : List Value, around.evaluate (.array items) = .ok (.array us) ∧
      (us.length : Int) = max 0 (Int64.toInt 3 - Int64.toInt (-1)) ∧
      (∀ u, us[0]? = some u → u = .null) ∧
      ∀ u, us[1]? = some u → identity.evaluate (.boolean true) = .ok u) ∧
    Int64.maxValue.toInt < Int64.maxValue.toInt - Int64.minValue.toInt ∧
    ∃ e, rangeOf Int64.minValue Int64.maxValue = .error e ∧ e.family = .outOfDomain := by
  intro items around
  have ranges := rangeOf_eq (-1) 3
  rw [if_pos (by decide)] at ranges
  have wide : Int64.maxValue.toInt < Int64.maxValue.toInt - Int64.minValue.toInt := by decide
  obtain ⟨-, -, slices⟩ := evaluate_range (-1) 3
  obtain ⟨isOk, elements, -⟩ := slices (constant (.integer (-1))) (constant (.integer 3)) identity
    items _ (by rw [evaluate]) (by rw [evaluate]) ranges
  obtain ⟨w, ok⟩ := isOk.mpr fun j item _ _ _ => ⟨item, by rw [evaluate]⟩
  obtain ⟨us, rfl, size, parts⟩ := elements w ok
  refine ⟨⟨_, ranges⟩, ⟨us, ok, size, ?_, ?_⟩, wide, (evaluate_range _ _).2.1 wide⟩
  · intro u found
    exact (parts 0 u found).2 (by decide)
  · intro u found
    exact (parts 1 u found).1 0 _ (by decide) rfl

end Expression

end JsonQuery.Query
