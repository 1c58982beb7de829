import JsonQuery.Proofs.Query.Expression.Positions
import JsonQuery.Proofs.Value.Scalars

/-!
# What positions address

Resolving positions keeps their arrays, objects and keys and puts what it addresses in the place of
every scalar (`resolve_eq`). It fails with the error of the first scalar that cannot be resolved, so
the order of fields matters only to positions with several such scalars (`resolve_congr`).
-/

namespace JsonQuery.Query

/-! ### Results with a failure -/

def failure? {α : Type} : Result α → Option EvalError
  | .ok _ => none
  | .error e => some e

/-- The result that fails if there is a failure. -/
def okUnless {α : Type} (failure : Option EvalError) (a : α) : Result α :=
  match failure with
  | some e => .error e
  | none => .ok a

theorem okUnless_bind {α β γ : Type} (x y : Option EvalError) (a : α) (b : β) (f : α → β → γ) :
    (do let first ← okUnless x a; let second ← okUnless y b; return f first second) =
      okUnless (x.or y) (f a b) := by
  cases x <;> cases y <;> rfl

theorem okUnless_map {α β : Type} (x : Option EvalError) (a : α) (f : α → β) :
    (do return f (← okUnless x a)) = okUnless x (f a) := by
  cases x <;> rfl

section Resolve

variable (leaf : Value → Result Value) (parts : Parts)

/-- What a scalar position resolves to; `null` if it does not. -/
def replacement (position : Value) : Value :=
  (address leaf parts position).toOption.getD .null

/-- The failure of the first of these scalars that cannot be resolved. -/
def firstFailure? (positions : List Value) : Option EvalError :=
  positions.findSome? fun position => failure? (address leaf parts position)

theorem address_eq (position : Value) :
    address leaf parts position =
      okUnless (firstFailure? leaf parts [position]) (replacement leaf parts position) := by
  unfold firstFailure? replacement
  rw [List.findSome?_singleton]
  cases address leaf parts position <;> rfl

theorem firstFailure?_append (a b : List Value) :
    firstFailure? leaf parts (a ++ b) =
      (firstFailure? leaf parts a).or (firstFailure? leaf parts b) :=
  List.findSome?_append

mutual

/-- Every scalar is replaced, unless one of them fails. -/
theorem resolve_eq (position : Value) :
    resolve leaf parts position =
      okUnless (firstFailure? leaf parts position.scalars)
        (position.mapScalars (replacement leaf parts)) := by
  match position with
  | .array positions =>
    rw [resolve, resolveItems_eq positions, okUnless_map, Value.scalars, Value.mapScalars]
  | .object positions =>
    rw [resolve, resolveFields_eq positions, okUnless_map, Value.scalars, Value.mapScalars]
  | .null | .boolean _ | .float _ | .integer _ | .string _ =>
    rw [resolve, Value.scalars_scalar rfl, Value.mapScalars_scalar rfl]
    · exact address_eq leaf parts _
    all_goals exact nofun

theorem resolveItems_eq (positions : List Value) :
    resolveItems leaf parts positions =
      okUnless (firstFailure? leaf parts (Value.scalarsItems positions))
        (Value.mapScalarsItems (replacement leaf parts) positions) := by
  match positions with
  | [] => rfl
  | position :: rest =>
    rw [resolveItems, resolve_eq position, resolveItems_eq rest, Value.scalarsItems,
      firstFailure?_append, Value.mapScalarsItems]
    exact okUnless_bind _ _ _ _ _

theorem resolveFields_eq (positions : List (String × Value)) :
    resolveFields leaf parts positions =
      okUnless (firstFailure? leaf parts (Value.scalarsFields positions))
        (Value.mapScalarsFields (replacement leaf parts) positions) := by
  match positions with
  | [] => rfl
  | (key, position) :: rest =>
    rw [resolveFields, resolve_eq position, resolveFields_eq rest, Value.scalarsFields,
      firstFailure?_append, Value.mapScalarsFields]
    exact okUnless_bind _ _ _ _ fun value more => (key, value) :: more

end

theorem firstFailure?_eq_none_iff {positions : List Value} :
    firstFailure? leaf parts positions = none ↔
      ∀ position ∈ positions, ∃ v, address leaf parts position = .ok v := by
  rw [firstFailure?, List.findSome?_eq_none_iff]
  refine forall₂_congr fun position _ => ?_
  cases address leaf parts position <;> simp [failure?]

/-- If no more than one of the scalars fails, their order does not matter. -/
theorem firstFailure?_perm {a b : List Value} (perm : a.Perm b)
    (few : (a.filter fun position =>
      (address leaf parts position).toOption.isNone).length ≤ 1) :
    firstFailure? leaf parts a = firstFailure? leaf parts b := by
  have size : (a.filterMap fun position => failure? (address leaf parts position)).length ≤ 1 := by
    rw [List.length_filterMap_eq_countP, ← List.countP_eq_length_filter] at *
    refine le_of_eq_of_le (List.countP_congr fun position _ => ?_) few
    cases address leaf parts position <;> simp [failure?, Except.toOption]
  rw [firstFailure?, firstFailure?, ← List.head?_filterMap, ← List.head?_filterMap]
  have failures := perm.filterMap fun position => failure? (address leaf parts position)
  generalize a.filterMap _ = found at size failures ⊢
  match found with
  | [] => rw [List.nil_perm.mp failures]
  | [e] => rw [List.singleton_perm.mp failures]

end Resolve

/-! ### Children -/

/-- An index goes with an array, and a key with an object. -/
inductive Suits : Value → Value → Prop where
  | index (items : List Value) (index : Int64) : Suits (.array items) (.integer index)
  | key (fields : Entries Value) (key : String) : Suits (.object fields) (.string key)

/-- The part of a value at a scalar position, unless the index is negative or too large or the key
is missing. -/
def child? : Value → Value → Option Value
  | .array items, .integer index => if 0 ≤ index.toInt then items[index.toInt.toNat]? else none
  | .object fields, .string key => Entries.find? key fields
  | _, _ => none

theorem mem_children_of_child? {v position part : Value} (h : child? v position = some part) :
    part ∈ v.children := by
  unfold child? at h
  split at h
  · split at h
    · exact List.mem_of_getElem? h
    · cases h
  · exact List.mem_map_of_mem (Entries.mem_of_find? h)
  · cases h

theorem suits_of_child? {v position part : Value} (h : child? v position = some part) :
    Suits v position := by
  unfold child? at h
  split at h
  · exact .index _ _
  · exact .key _ _
  · cases h

theorem address_of_suits {v position : Value} (suits : Suits v position)
    (leaf : Value → Result Value) :
    address leaf (partsOf v) position = partOf leaf (child? v position) := by
  cases suits with
  | index items index =>
    rw [address_array, item?, child?, List.getElem?_toArray]
  | key fields key => exact address_object fields key

theorem address_of_not_suits {v position : Value} (unsuitable : ¬Suits v position) :
    ∃ e, ∀ leaf, address leaf (partsOf v) position = .error e := by
  cases position with
  | integer index =>
    cases v with
    | array items => exact absurd (.index items index) unsuitable
    | _ => exact ⟨_, fun _ => rfl⟩
  | string key =>
    cases v with
    | object fields => exact absurd (.key fields key) unsuitable
    | _ => exact ⟨_, fun _ => rfl⟩
  | _ => exact ⟨_, fun _ => rfl⟩

theorem address_eq_ok_iff {leaf : Value → Result Value} {v position w : Value} :
    address leaf (partsOf v) position = .ok w ↔
      Suits v position ∧ partOf leaf (child? v position) = .ok w := by
  by_cases suits : Suits v position
  · rw [address_of_suits suits]
    exact (and_iff_right suits).symm
  · obtain ⟨e, failed⟩ := address_of_not_suits suits
    rw [failed]
    exact ⟨nofun, fun h => absurd h.1 suits⟩

/-- The leaf is applied to children only. -/
theorem address_congr {leaf leaf' : Value → Result Value} {v : Value}
    (same : ∀ part ∈ v.children, leaf part = leaf' part) :
    address leaf (partsOf v) = address leaf' (partsOf v) := by
  funext position
  by_cases suits : Suits v position
  · rw [address_of_suits suits, address_of_suits suits]
    cases found : child? v position with
    | none => rfl
    | some part => exact same part (mem_children_of_child? found)
  · obtain ⟨e, failed⟩ := address_of_not_suits suits
    rw [failed, failed]

/-! ### Results -/

section Results

variable {leaf leaf' : Value → Result Value} {v position w : Value}

theorem resolve_eq_ok_iff :
    resolve leaf (partsOf v) position = .ok w ↔
      (∀ s ∈ position.scalars, ∃ u, address leaf (partsOf v) s = .ok u) ∧
        position.mapScalars (replacement leaf (partsOf v)) = w := by
  rw [resolve_eq, ← firstFailure?_eq_none_iff]
  cases firstFailure? leaf (partsOf v) position.scalars <;> simp [okUnless]

theorem exists_resolve_iff :
    (∃ w, resolve leaf (partsOf v) position = .ok w) ↔
      ∀ s ∈ position.scalars, Suits v s ∧
        ∀ part, child? v s = some part → ∃ u, leaf part = .ok u := by
  have scalar (s : Value) : (∃ u, address leaf (partsOf v) s = .ok u) ↔
      Suits v s ∧ ∀ part, child? v s = some part → ∃ u, leaf part = .ok u := by
    simp only [address_eq_ok_iff]
    rw [exists_and_left]
    refine and_congr_right fun _ => ?_
    cases child? v s <;> simp [partOf]
  simp only [resolve_eq_ok_iff, scalar]
  constructor
  · rintro ⟨w, all, -⟩
    exact all
  · exact fun all => ⟨_, all, rfl⟩

theorem replacement_of_resolve (ok : resolve leaf (partsOf v) position = .ok w) :
    ∃ g, w = position.mapScalars g ∧ ∀ s ∈ position.scalars,
      partOf leaf (child? v s) = .ok (g s) := by
  obtain ⟨all, rfl⟩ := resolve_eq_ok_iff.mp ok
  refine ⟨_, rfl, fun s mem => ?_⟩
  obtain ⟨u, addressed⟩ := all s mem
  rw [replacement, addressed]
  exact (address_eq_ok_iff.mp addressed).2

/-- With several failing scalars in several fields, the order of the fields decides which one is
reported. -/
theorem resolve_congr {position' : Value}
    (same : ∀ part ∈ v.children, leaf part = leaf' part)
    (reordered : position.sorted = position'.sorted)
    (few : (position.scalars.filter fun s =>
        (address leaf (partsOf v) s).toOption.isNone).length ≤ 1 ∨
      ∀ fields, ¬Value.Inside (.object fields) position) :
    (resolve leaf (partsOf v) position).map Value.sorted =
      (resolve leaf' (partsOf v) position').map Value.sorted := by
  have addressed := address_congr same
  rcases few with few | plain
  · have perm : position.scalars.Perm position'.scalars :=
      (Value.scalars_sorted position).symm.trans (reordered ▸ Value.scalars_sorted position')
    have replaced : replacement leaf (partsOf v) = replacement leaf' (partsOf v) := by
      unfold replacement
      rw [addressed]
    have failing : firstFailure? leaf (partsOf v) position.scalars =
        firstFailure? leaf' (partsOf v) position'.scalars := by
      rw [firstFailure?_perm leaf (partsOf v) perm few, firstFailure?, firstFailure?, addressed]
    rw [resolve_eq, resolve_eq, failing, ← replaced]
    cases firstFailure? leaf' (partsOf v) position'.scalars with
    | some e => rfl
    | none =>
      show Except.ok _ = Except.ok _
      rw [Value.sorted_mapScalars, Value.sorted_mapScalars, reordered]
  · obtain rfl := Value.eq_of_sorted_eq plain reordered
    rw [resolve_eq, resolve_eq, firstFailure?, firstFailure?, addressed]
    unfold replacement
    rw [addressed]

end Results

/-! ### Lists of positions -/

section Evaluation

variable [Platform]

theorem evaluateAll_elements_iff {es : List Expression} {f : Expression} {input : Value}
    {ws : List Value} :
    Expression.evaluateAll (es.map fun e => .element e f) input = .ok ws ↔
      ∃ positions, Expression.evaluateAll es input = .ok positions ∧
        resolveItems f.evaluate (partsOf input) positions = .ok ws := by
  induction es generalizing ws with
  | nil =>
    constructor
    · exact fun ok => ⟨[], rfl, ok⟩
    · rintro ⟨positions, ok, resolved⟩
      cases ok
      exact resolved
  | cons e rest ih =>
    rw [List.map_cons, Expression.evaluateAll, Expression.evaluate]
    constructor
    · intro ok
      obtain ⟨w, first, ok⟩ := bind_eq_ok_iff.mp ok
      obtain ⟨position, located, resolved⟩ := bind_eq_ok_iff.mp first
      obtain ⟨others, more, ok⟩ := bind_eq_ok_iff.mp ok
      obtain ⟨positions, evaluated, resolvedAll⟩ := ih.mp more
      cases ok
      refine ⟨position :: positions, ?_, ?_⟩
      · rw [Expression.evaluateAll, located, evaluated]
        rfl
      · rw [resolveItems, resolved, resolvedAll]
        rfl
    · rintro ⟨positions, evaluated, resolved⟩
      rw [Expression.evaluateAll] at evaluated
      obtain ⟨position, located, evaluated⟩ := bind_eq_ok_iff.mp evaluated
      obtain ⟨others, more, ok⟩ := bind_eq_ok_iff.mp evaluated
      cases ok
      rw [resolveItems] at resolved
      obtain ⟨w, first, resolved⟩ := bind_eq_ok_iff.mp resolved
      obtain ⟨us, resolvedAll, ok⟩ := bind_eq_ok_iff.mp resolved
      cases ok
      rw [located, ih.mpr ⟨others, more, resolvedAll⟩]
      show (resolve f.evaluate (partsOf input) position >>= _) = _
      rw [first]
      rfl

theorem evaluate_element_array {es : List Expression} {f : Expression} {input w : Value} :
    (Expression.element (.array es) f).evaluate input = .ok w ↔
      (Expression.array (es.map fun e => .element e f)).evaluate input = .ok w := by
  rw [Expression.evaluate, Expression.evaluate, Expression.evaluate]
  constructor
  · intro ok
    obtain ⟨_, located, ok⟩ := bind_eq_ok_iff.mp ok
    obtain ⟨positions, evaluated, same⟩ := bind_eq_ok_iff.mp located
    cases same
    rw [resolve] at ok
    obtain ⟨ws, resolved, ok⟩ := bind_eq_ok_iff.mp ok
    rw [evaluateAll_elements_iff.mpr ⟨positions, evaluated, resolved⟩]
    exact ok
  · intro ok
    obtain ⟨ws, all, ok⟩ := bind_eq_ok_iff.mp ok
    obtain ⟨positions, evaluated, resolved⟩ := evaluateAll_elements_iff.mp all
    rw [evaluated]
    show resolve f.evaluate (partsOf input) (.array positions) = _
    rw [resolve, resolved]
    exact ok

/-- Positions resolve if and only if every scalar in them is an index for an array or a key for an
object and the leaf succeeds on every child that is there. The result is the positions with every
scalar replaced by the result of the leaf, or by `null` if there is no such child. Leaves that agree
on the children give the same result or error, in whatever order the fields of the positions stand,
unless several scalars in several fields fail. A list of positions may be resolved one by one. -/
theorem resolve_scalars (f : Expression) (v : Value) :
    (∀ position,
      ((∃ w, resolve f.evaluate (partsOf v) position = .ok w) ↔
        ∀ s ∈ position.scalars, Suits v s ∧
          ∀ part, child? v s = some part → ∃ u, f.evaluate part = .ok u) ∧
      ∀ w, resolve f.evaluate (partsOf v) position = .ok w →
        ∃ g, w = position.mapScalars g ∧ ∀ s ∈ position.scalars,
          (∀ part, child? v s = some part → f.evaluate part = .ok (g s)) ∧
          (child? v s = none → g s = .null)) ∧
    (∀ (f' : Expression) (position position' : Value),
      (∀ part ∈ v.children, f.evaluate part = f'.evaluate part) →
      position.sorted = position'.sorted →
      (position.scalars.filter fun s =>
          (address f.evaluate (partsOf v) s).toOption.isNone).length ≤ 1 ∨
        (∀ fields, ¬Value.Inside (.object fields) position) →
      (resolve f.evaluate (partsOf v) position).map Value.sorted =
        (resolve f'.evaluate (partsOf v) position').map Value.sorted) ∧
    ∀ (es : List Expression) (w : Value),
      (Expression.element (.array es) f).evaluate v = .ok w ↔
        (Expression.array (es.map fun e => .element e f)).evaluate v = .ok w := by
  refine ⟨fun position => ⟨exists_resolve_iff, fun w ok => ?_⟩,
    fun f' position position' same reordered few => resolve_congr same reordered few,
    fun es w => evaluate_element_array⟩
  obtain ⟨g, replaced, scalars⟩ := replacement_of_resolve ok
  refine ⟨g, replaced, fun s mem => ?_⟩
  have here := scalars s mem
  constructor
  · rintro part found
    rwa [found] at here
  · intro missing
    rw [missing] at here
    exact (Except.ok.inj here).symm

end Evaluation

theorem resolve_scalars_second :
    (∃ w, resolve Expression.identity.evaluate (partsOf (.array [.null, .boolean true]))
      (.object [("b", .integer 1), ("a", .integer 9)]) = .ok w) ∧
    (resolve Expression.identity.evaluate (partsOf (.array [.null, .boolean true]))
        (.object [("b", .integer 1), ("a", .string "k")])).map Value.sorted =
      (resolve (Expression.recover .identity).evaluate (partsOf (.array [.null, .boolean true]))
        (.object [("a", .string "k"), ("b", .integer 1)])).map Value.sorted := by
  obtain ⟨located, congr, -⟩ := resolve_scalars .identity (.array [.null, .boolean true])
  have reordered : (Value.object [("b", .integer 1), ("a", .string "k")]).sorted =
      (Value.object [("a", .string "k"), ("b", .integer 1)]).sorted := by
    rw [Value.sorted_object, Value.sorted_object,
      (Entries.sorted_eq_iff (by decide) (by decide)).mpr (.swap ..)]
  refine ⟨(located _).1.mpr fun s mem => ?_, congr (.recover .identity) _ _ ?_ reordered ?_⟩
  · rcases List.mem_cons.mp mem with rfl | mem
    · exact ⟨.index _ 1, fun part _ => ⟨part, rfl⟩⟩
    · rw [List.mem_singleton.mp mem]
      exact ⟨.index _ 9, fun part _ => ⟨part, rfl⟩⟩
  · exact fun part _ => rfl
  · exact .inl (Nat.le_refl 1)

end JsonQuery.Query
