import JsonQuery.Proofs.Query.Expression.Preservation
import JsonQuery.Proofs.Value.Equality

/-!
# Positions in another order

`Respects f` says that `f` fails on both or on neither of two regular values with the same sorted
form, and that its results have the same sorted form. Positions are resolved in some order, which
decides at most which of several errors is reported (`outcome_resolve`).
-/

namespace JsonQuery.Query

open Value (Regular sorted sortedItems sortedFields)

/-- What an evaluation yields up to `norm`, if it succeeds. -/
def outcome {α β : Type} (norm : α → β) (x : Result α) : Option β := x.toOption.map norm

def Respects (f : Value → Result Value) : Prop :=
  ∀ ⦃a b : Value⦄, Regular a → Regular b → a.sorted = b.sorted →
    outcome sorted (f a) = outcome sorted (f b)

section Outcome

variable {α β γ δ : Type}

theorem outcome_ok (norm : α → β) (a : α) : outcome norm (.ok a) = some (norm a) := rfl

theorem outcome_bind {norm : α → β} {norm' : γ → δ} {x y : Result α} {f g : α → Result γ}
    (same : outcome norm x = outcome norm y)
    (next : ∀ a b, x = .ok a → y = .ok b → norm a = norm b →
      outcome norm' (f a) = outcome norm' (g b)) :
    outcome norm' (x >>= f) = outcome norm' (y >>= g) := by
  cases x with
  | error e =>
    cases y with
    | error e' => rfl
    | ok b => cases same
  | ok a =>
    cases y with
    | error e' => cases same
    | ok b => exact next a b rfl rfl (Option.some.inj same)

end Outcome

section Positions

variable {leaf : Value → Result Value} {a b : Value}

theorem item?_map (items : List Value) (index : Int64) :
    item? (items.map sorted).toArray index = (item? items.toArray index).map sorted := by
  unfold item?
  split
  · simp
  · rfl

theorem mem_of_item? {items : List Value} {index : Int64} {v : Value}
    (h : item? items.toArray index = some v) : v ∈ items := by
  unfold item? at h
  split at h
  · exact List.mem_toArray.mp (Array.mem_of_getElem? h)
  · cases h

/-- A part that may be missing, through `leaf`. -/
def partOf (leaf : Value → Result Value) : Option Value → Result Value
  | some v => leaf v
  | none => .ok .null

theorem outcome_partOf (respects : Respects leaf) {x y : Option Value}
    (same : x.map sorted = y.map sorted) (hx : ∀ v, x = some v → Regular v)
    (hy : ∀ v, y = some v → Regular v) :
    outcome sorted (partOf leaf x) = outcome sorted (partOf leaf y) := by
  cases x with
  | none =>
    cases y with
    | none => rfl
    | some w => cases same
  | some v =>
    cases y with
    | none => cases same
    | some w => exact respects (hx v rfl) (hy w rfl) (Option.some.inj same)

theorem address_array (items : List Value) (index : Int64) :
    address leaf (partsOf (.array items)) (.integer index) =
      partOf leaf (item? items.toArray index) := by
  show (match item? items.toArray index with
    | some item => leaf item
    | none => .ok .null) = _
  cases item? items.toArray index <;> rfl

theorem address_object (fields : Entries Value) (field : String) :
    address leaf (partsOf (.object fields)) (.string field) =
      partOf leaf (Entries.find? field fields) := by
  show (match Entries.find? field fields with
    | some value => leaf value
    | none => .ok .null) = _
  cases Entries.find? field fields <;> rfl

theorem outcome_address (respects : Respects leaf) (ha : Regular a) (hb : Regular b)
    (same : a.sorted = b.sorted) (position : Value) :
    outcome sorted (address leaf (partsOf a) position) =
      outcome sorted (address leaf (partsOf b) position) := by
  cases a with
  | array xs =>
    cases b with
    | array ys =>
      have items : xs.map sorted = ys.map sorted := by
        simpa [Value.sorted_array] using same
      cases position with
      | integer index =>
        rw [address_array, address_array]
        refine outcome_partOf respects ?_ (fun v found => ha.item v (mem_of_item? found))
          (fun v found => hb.item v (mem_of_item? found))
        rw [← item?_map, ← item?_map, items]
      | _ => rfl
    | _ => simp [sorted] at same
  | object xs =>
    cases b with
    | object ys =>
      have fields := Value.object.inj same
      rw [Value.sortedFields_eq, Value.sortedFields_eq,
        Entries.sorted_eq_iff ha.distinct.mapValues hb.distinct.mapValues] at fields
      cases position with
      | string field =>
        rw [address_object, address_object]
        refine outcome_partOf respects ?_
          (fun v found => ha.field _ (Entries.mem_of_find? found))
          (fun v found => hb.field _ (Entries.mem_of_find? found))
        rw [← Entries.find?_mapValues, ← Entries.find?_mapValues,
          Entries.find?_perm ha.distinct.mapValues fields]
      | _ => rfl
    | _ => simp [sorted] at same
  | _ =>
    cases b with
    | array => simp [sorted] at same
    | object => simp [sorted] at same
    | _ => cases position <;> rfl

/-- The fields may be resolved in any order. -/
theorem resolveFields_perm {parts : Parts} {t t' : Entries Value} (perm : t.Perm t')
    {us : Entries Value} (ok : resolveFields leaf parts t = .ok us) :
    ∃ us', resolveFields leaf parts t' = .ok us' ∧ us.Perm us' := by
  induction perm generalizing us with
  | nil => exact ⟨us, ok, .refl us⟩
  | cons field _ ih =>
    rw [resolveFields] at ok
    obtain ⟨v, first, ok⟩ := bind_eq_ok_iff.mp ok
    obtain ⟨rest, more, ok⟩ := bind_eq_ok_iff.mp ok
    cases ok
    obtain ⟨rest', more', perm⟩ := ih more
    refine ⟨(field.1, v) :: rest', ?_, perm.cons _⟩
    rw [resolveFields, first, more']
    rfl
  | swap one other rest =>
    simp only [resolveFields] at ok ⊢
    obtain ⟨v, first, ok⟩ := bind_eq_ok_iff.mp ok
    obtain ⟨more, tail, ok⟩ := bind_eq_ok_iff.mp ok
    obtain ⟨w, second, tail⟩ := bind_eq_ok_iff.mp tail
    obtain ⟨us', others, tail⟩ := bind_eq_ok_iff.mp tail
    cases tail
    cases ok
    refine ⟨(one.1, w) :: (other.1, v) :: us', ?_, .swap ..⟩
    rw [first, second, others]
    rfl
  | trans _ _ ih ih' =>
    obtain ⟨us', ok', perm⟩ := ih ok
    obtain ⟨us'', ok'', perm'⟩ := ih' ok'
    exact ⟨us'', ok'', perm.trans perm'⟩

theorem distinct_of_resolveFields {parts : Parts} {t us : Entries Value}
    (h : Entries.Distinct t) (ok : resolveFields leaf parts t = .ok us) : Entries.Distinct us := by
  rw [Entries.Distinct, keys_of_resolveFields ok]
  exact h

theorem outcome_resolve_perm {parts : Parts} {t t' : Entries Value} (h : Entries.Distinct t)
    (perm : t.Perm t') :
    outcome sorted (resolve leaf parts (.object t)) =
      outcome sorted (resolve leaf parts (.object t')) := by
  simp only [resolve]
  cases ok : resolveFields leaf parts t with
  | ok us =>
    obtain ⟨us', ok', same⟩ := resolveFields_perm perm ok
    have distinct := distinct_of_resolveFields h ok
    rw [ok']
    show some (Value.object us).sorted = some (Value.object us').sorted
    rw [Value.sorted_object, Value.sorted_object,
      (Entries.sorted_eq_iff distinct (distinct.perm same)).mpr same]
  | error e =>
    cases ok' : resolveFields leaf parts t' with
    | ok us' =>
      obtain ⟨us, found, -⟩ := resolveFields_perm perm.symm ok'
      rw [ok] at found
      cases found
    | error e' => rfl

mutual

/-- Positions may be sorted before they are resolved, in parts with the same sorted form. -/
theorem outcome_resolve (respects : Respects leaf) (ha : Regular a) (hb : Regular b)
    (same : a.sorted = b.sorted) (position : Value) (hp : Regular position) :
    outcome sorted (resolve leaf (partsOf a) position) =
      outcome sorted (resolve leaf (partsOf b) position.sorted) := by
  match position with
  | .array positions =>
    rw [Value.sorted, resolve, resolve]
    refine outcome_bind (outcome_resolveItems respects ha hb same positions hp.item) ?_
    intro us us' _ _ equal
    show some (Value.array us).sorted = some (Value.array us').sorted
    rw [Value.sorted_array, Value.sorted_array, equal]
  | .object positions =>
    -- sorting changes at most which field fails first
    have distinct : Entries.Distinct (sortedFields positions) := by
      rw [Value.sortedFields_eq]
      exact hp.distinct.mapValues
    rw [Value.sorted, ← outcome_resolve_perm distinct (Entries.sorted_perm _).symm, resolve,
      resolve]
    refine outcome_bind (outcome_resolveFields respects ha hb same positions hp.field) ?_
    intro us us' _ _ equal
    show some (Value.object us).sorted = some (Value.object us').sorted
    rw [Value.sorted, Value.sorted, Value.sortedFields_eq, Value.sortedFields_eq, equal]
  | .null | .boolean _ | .float _ | .integer _ | .string _ =>
    rw [Value.sorted, resolve, resolve]
    · exact outcome_address respects ha hb same _
    all_goals exact nofun

theorem outcome_resolveItems (respects : Respects leaf) (ha : Regular a) (hb : Regular b)
    (same : a.sorted = b.sorted) (positions : List Value)
    (hp : ∀ position ∈ positions, Regular position) :
    outcome (List.map sorted) (resolveItems leaf (partsOf a) positions) =
      outcome (List.map sorted) (resolveItems leaf (partsOf b) (sortedItems positions)) := by
  match positions with
  | [] => rfl
  | position :: rest =>
    obtain ⟨here, there⟩ := List.forall_mem_cons.mp hp
    rw [sortedItems, resolveItems, resolveItems]
    refine outcome_bind (outcome_resolve respects ha hb same position here) ?_
    intro v v' _ _ first
    refine outcome_bind (outcome_resolveItems respects ha hb same rest there) ?_
    intro us us' _ _ others
    show some ((v :: us).map sorted) = some ((v' :: us').map sorted)
    rw [List.map_cons, List.map_cons, first, others]

theorem outcome_resolveFields (respects : Respects leaf) (ha : Regular a) (hb : Regular b)
    (same : a.sorted = b.sorted) (positions : List (String × Value))
    (hp : ∀ field ∈ positions, Regular field.2) :
    outcome (Entries.mapValues sorted) (resolveFields leaf (partsOf a) positions) =
      outcome (Entries.mapValues sorted)
        (resolveFields leaf (partsOf b) (sortedFields positions)) := by
  match positions with
  | [] => rfl
  | (key, position) :: rest =>
    obtain ⟨here, there⟩ := List.forall_mem_cons.mp hp
    rw [sortedFields, resolveFields, resolveFields]
    refine outcome_bind (outcome_resolve respects ha hb same position here) ?_
    intro v v' _ _ first
    refine outcome_bind (outcome_resolveFields respects ha hb same rest there) ?_
    intro us us' _ _ others
    show some (Entries.mapValues sorted ((key, v) :: us)) =
      some (Entries.mapValues sorted ((key, v') :: us'))
    rw [Entries.mapValues_cons, Entries.mapValues_cons, first, others]

end

end Positions

end JsonQuery.Query
