import JsonQuery.Proofs.Query.Expression.Addressing

/-!
# One value after the other

Lists of positions are resolved, and the items of an array filtered, one after the other. `Each`
says what comes of that: a result for every value, or the failure at the lowest index. Positions
that all suit the input lead to the parts that are there (`resolve_map`).
-/

namespace JsonQuery.Query

section Each

variable {α β : Type} {f : α → Result β} {xs : List α}

/-- The results of `f` on all values in order, or its failure on the first one on which it fails. -/
def Each (f : α → Result β) (xs : List α) : Result (List β) → Prop
  | .ok ys => List.Forall₂ (fun x y => f x = .ok y) xs ys
  | .error e => ∃ (i : Nat) (x : α), xs[i]? = some x ∧ f x = .error e ∧
      ∀ j < i, ∀ earlier : α, xs[j]? = some earlier → ∃ y, f earlier = .ok y

theorem each_mapM (f : α → Result β) (xs : List α) : Each f xs (xs.mapM f) := by
  induction xs with
  | nil => exact .nil
  | cons x xs ih =>
    rw [List.mapM_cons]
    cases first : f x with
    | error e =>
      refine ⟨0, x, rfl, first, ?_⟩
      intro j before
      exact absurd before (Nat.not_lt_zero j)
    | ok y =>
      cases rest : xs.mapM f with
      | error e =>
        rw [rest] at ih
        obtain ⟨i, z, here, failed, earlier⟩ := ih
        refine ⟨i + 1, z, here, failed, ?_⟩
        intro j before w there
        cases j with
        | zero =>
          cases there
          exact ⟨y, first⟩
        | succ j => exact earlier j (by omega) w there
      | ok ys =>
        rw [rest] at ih
        exact .cons first ih

namespace Each

theorem length {ys : List β} (each : Each f xs (.ok ys)) : ys.length = xs.length :=
  (List.Forall₂.length_eq each).symm

theorem of_getElem? {ys : List β} (each : Each f xs (.ok ys)) {i : Nat} {y : β}
    (found : ys[i]? = some y) : ∃ x, xs[i]? = some x ∧ f x = .ok y := by
  obtain ⟨behind, rfl⟩ := List.getElem?_eq_some_iff.mp found
  have inside : i < xs.length := by rwa [each.length] at behind
  exact ⟨xs[i], List.getElem?_eq_getElem inside, List.Forall₂.get each inside behind⟩

theorem isOk_iff {results : Result (List β)} (each : Each f xs results) :
    (∃ ys, results = .ok ys) ↔ ∀ x ∈ xs, ∃ y, f x = .ok y := by
  cases results with
  | error e =>
    obtain ⟨i, x, here, failed, -⟩ := each
    constructor
    · rintro ⟨ys, same⟩
      cases same
    · intro all
      obtain ⟨y, ok⟩ := all x (List.mem_of_getElem? here)
      rw [failed] at ok
      cases ok
  | ok ys =>
    constructor
    · intro _ x mem
      obtain ⟨i, inside, rfl⟩ := List.mem_iff_getElem.mp mem
      have behind : i < ys.length := by rwa [each.length]
      exact ⟨ys[i], List.Forall₂.get each inside behind⟩
    · intro _
      exact ⟨ys, rfl⟩

end Each

/-- The failure at the lowest index is the one that is reported. -/
theorem mapM_eq_error_iff {e : EvalError} : xs.mapM f = .error e ↔ Each f xs (.error e) := by
  have each := each_mapM f xs
  constructor
  · intro failed
    rwa [failed] at each
  · rintro ⟨i, x, here, failed, earlier⟩
    cases mapped : xs.mapM f with
    | ok ys =>
      rw [mapped] at each
      obtain ⟨y, ok⟩ := each.isOk_iff.mp ⟨ys, rfl⟩ x (List.mem_of_getElem? here)
      rw [failed] at ok
      cases ok
    | error e' =>
      rw [mapped] at each
      obtain ⟨j, z, there, failed', earlier'⟩ := each
      rcases Nat.lt_trichotomy i j with before | rfl | behind
      · obtain ⟨y, ok⟩ := earlier' i before x here
        rw [failed] at ok
        cases ok
      · cases here.symm.trans there
        cases failed.symm.trans failed'
        rfl
      · obtain ⟨y, ok⟩ := earlier j behind z there
        rw [failed'] at ok
        cases ok

theorem map_isOk_iff {x : Result α} {g : α → β} :
    (∃ y, x.map g = .ok y) ↔ ∃ y, x = .ok y := by
  cases x <;> simp [Except.map]

theorem mapM_congr {g : α → Result β} (same : ∀ x ∈ xs, f x = g x) : xs.mapM f = xs.mapM g := by
  induction xs with
  | nil => rfl
  | cons x xs ih =>
    obtain ⟨here, there⟩ := List.forall_mem_cons.mp same
    rw [List.mapM_cons, List.mapM_cons, here, ih there]

/-- Going through the indices is going through the list. -/
theorem mapM_range (g : Option α → Result β) (xs : List α) :
    (List.range xs.length).mapM (fun i => g xs[i]?) = xs.mapM fun x => g (some x) := by
  have indices : (List.range xs.length).map (fun i => xs[i]?) = xs.map some := by
    refine List.ext_getElem (by simp) fun i h h' => ?_
    simp
  have mapped := @List.mapM_map Result _ _ _ _ _ (fun i => xs[i]?) g (List.range xs.length)
  rw [indices, List.mapM_map] at mapped
  exact mapped.symm

end Each

section Traversal

variable (leaf : Value → Result Value)

theorem resolveItems_eq_mapM (parts : Parts) (positions : List Value) :
    resolveItems leaf parts positions = positions.mapM (resolve leaf parts) := by
  induction positions with
  | nil => rfl
  | cons position rest ih =>
    rw [resolveItems, ih, List.mapM_cons]

theorem resolve_of_suits {v position : Value} (suits : Suits v position) :
    resolve leaf (partsOf v) position = partOf leaf (child? v position) := by
  rw [← address_of_suits suits]
  cases suits with
  | index items index => rw [resolve] <;> (intro _ same; cases same)
  | key fields key => rw [resolve] <;> (intro _ same; cases same)

/-- Positions that suit the input are resolved in order. -/
theorem resolve_map {α : Type} {v : Value} {positionOf : α → Value} {part : α → Result Value}
    {xs : List α} (suits : ∀ x ∈ xs, Suits v (positionOf x))
    (parts : ∀ x ∈ xs, partOf leaf (child? v (positionOf x)) = part x) :
    resolve leaf (partsOf v) (.array (xs.map positionOf)) = (xs.mapM part).map .array := by
  have each : xs.mapM (resolve leaf (partsOf v) ∘ positionOf) = xs.mapM part :=
    mapM_congr fun x mem => (resolve_of_suits leaf (suits x mem)).trans (parts x mem)
  rw [resolve, resolveItems_eq_mapM, List.mapM_map, each]
  cases xs.mapM part <;> rfl

theorem filterItems_true (items : List Value) :
    filterItems (fun _ => .ok (.boolean true)) leaf items = items.mapM leaf := by
  induction items with
  | nil => rfl
  | cons item rest ih =>
    rw [List.mapM_cons, ← ih]
    rfl

end Traversal

end JsonQuery.Query
