import JsonQuery.Proofs.Entries
import JsonQuery.Proofs.Query.Expression.Parts
import JsonQuery.Proofs.Query.Tokens
import JsonQuery.Query.Compile

/-!
# Binding

The expression of a query is made from its tree, one call at a time, so what the built-in functions
keep holds of it (`Bindable.compile`).
-/

namespace JsonQuery.Query

theorem bind_eq_ok_iff {ε α β : Type} {x : Except ε α} {f : α → Except ε β} {b : β} :
    x >>= f = .ok b ↔ ∃ a, x = .ok a ∧ f a = .ok b := by
  constructor
  · intro h
    cases x with
    | error e => cases h
    | ok a => exact ⟨a, rfl, h⟩
  · rintro ⟨a, rfl, h⟩
    exact h

theorem bind_eq_error_iff {ε α β : Type} {x : Except ε α} {f : α → Except ε β} {e : ε} :
    x >>= f = .error e ↔ x = .error e ∨ ∃ a, x = .ok a ∧ f a = .error e := by
  cases x with
  | error other =>
    constructor
    · intro h
      cases h
      exact Or.inl rfl
    · rintro (h | ⟨a, ok, -⟩)
      · cases h
        rfl
      · cases ok
  | ok a =>
    constructor
    · exact fun h => Or.inr ⟨a, rfl, h⟩
    · rintro (h | ⟨_, ok, h⟩)
      · cases h
      · cases ok
        exact h

theorem isOk_iff_forall_ne {ε α : Type} {x : Except ε α} :
    (∃ a, x = .ok a) ↔ ∀ e, x ≠ .error e := by
  cases x <;> simp

/-! ### Arguments -/

theorem flatten_of_pairUp? {args : List Expression} {pairs : List (Expression × Expression)}
    (h : pairUp? args = some pairs) : (pairs.flatMap fun pair => [pair.1, pair.2]) = args := by
  fun_induction pairUp? args generalizing pairs with
  | case1 => cases h; rfl
  | case2 => cases h
  | case3 key value rest ih =>
    obtain ⟨others, paired, rfl⟩ := Option.map_eq_some_iff.mp h
    rw [List.flatMap_cons, ih paired]
    rfl

theorem pairUp?_flatten (pairs : List (Expression × Expression)) :
    pairUp? (pairs.flatMap fun pair => [pair.1, pair.2]) = some pairs := by
  induction pairs with
  | nil => rfl
  | cons pair rest ih =>
    show (pairUp? (rest.flatMap fun pair => [pair.1, pair.2])).map ((pair.1, pair.2) :: ·) = _
    rw [ih]
    rfl

/-- The expressions that stand in for arguments that are left out. -/
def defaults : List Expression := [.identity, .constant (.string ""), .constant (.integer 0)]

theorem parts_of_assemble? {builtin : Builtin} {args : List Expression} {e : Expression}
    (h : builtin.assemble? args = some e) : ∀ part ∈ e.parts, part ∈ args ∨ part ∈ defaults := by
  unfold Builtin.assemble? at h
  split at h
  case h_6 =>
    obtain ⟨pairs, paired, rfl⟩ := Option.map_eq_some_iff.mp h
    intro part mem
    rw [← flatten_of_pairUp? paired]
    exact Or.inl (by simpa using mem)
  case h_24 => cases h
  all_goals
    cases h
    simp +contextual [defaults]

/-! ### Trees -/

namespace Registry

theorem standard_eq_ofWrites :
    standard = Entries.ofWrites (Builtin.all.map fun builtin => (builtin.name, builtin.build)) := by
  rw [Entries.ofWrites, List.foldl_map]
  rfl

theorem builtin_of_get? {name : String} {build : Constructor}
    (h : standard.get? name = some build) : ∃ builtin : Builtin, build = builtin.build := by
  have mem := Entries.mem_of_find? h
  rw [standard_eq_ofWrites] at mem
  obtain ⟨builtin, -, same⟩ := List.mem_map.mp (Entries.mem_of_mem_ofWrites mem)
  exact ⟨builtin, (Prod.mk.inj same).2.symm⟩

end Registry

/-- What binding asks of a property of trees and their expressions. -/
structure Bindable (p : Node → Expression → Prop) : Prop where
  literal (l : Literal) (proper : (Token.literal l).Proper) : p (.literal l) (.constant l.value)
  call {name : String} {args : List Node} {builtin : Builtin} {bound : List Expression}
    {e : Expression} (inner : ∀ e ∈ bound, ∃ arg ∈ args, p arg e)
    (built : builtin.build bound = .ok e) : p (.call name args) e

section Bindable

variable {p : Node → Expression → Prop}

mutual

theorem Bindable.bind (bindable : Bindable p) (node : Node) (legible : node.Legible)
    {e : Expression} (h : Registry.standard.bind node = .ok e) : p node e := by
  match node with
  | .literal l =>
    cases h
    cases legible with
    | literal proper => exact bindable.literal l proper
  | .call name args =>
    rw [Registry.bind] at h
    split at h
    · cases h
    case h_2 build found =>
      obtain ⟨builtin, rfl⟩ := Registry.builtin_of_get? found
      obtain ⟨bound, boundAll, built⟩ := bind_eq_ok_iff.mp h
      cases legible with
      | call _ inner => exact bindable.call (bindable.bindAll args inner boundAll) built

theorem Bindable.bindAll (bindable : Bindable p) (nodes : List Node)
    (legible : ∀ node ∈ nodes, node.Legible) {bound : List Expression}
    (h : Registry.standard.bindAll nodes = .ok bound) : ∀ e ∈ bound, ∃ node ∈ nodes, p node e := by
  match nodes with
  | [] =>
    cases h
    exact nofun
  | node :: rest =>
    rw [Registry.bindAll] at h
    obtain ⟨e, first, h⟩ := bind_eq_ok_iff.mp h
    obtain ⟨others, more, h⟩ := bind_eq_ok_iff.mp h
    cases h
    obtain ⟨here, there⟩ := List.forall_mem_cons.mp legible
    refine List.forall_mem_cons.mpr ⟨⟨node, List.mem_cons_self, ?_⟩, fun e mem => ?_⟩
    · exact bindable.bind node here first
    · obtain ⟨other, inside, h⟩ := bindable.bindAll rest there more e mem
      exact ⟨other, List.mem_cons_of_mem _ inside, h⟩

end

end Bindable

theorem compileWith_eq_ok_iff {registry : Registry} {query : String} {e : Expression} :
    compileWith registry query = .ok e ↔
      ∃ node, parse query = .ok node ∧ registry.bind node = .ok e := by
  unfold compileWith
  constructor
  · intro h
    split at h
    · cases h
    case h_2 node parsed =>
      cases bound : registry.bind node with
      | error error => rw [bound] at h; cases h
      | ok e' =>
        rw [bound] at h
        cases h
        exact ⟨node, parsed, bound⟩
  · rintro ⟨node, parsed, bound⟩
    rw [parsed]
    dsimp only
    rw [bound]
    rfl

theorem Bindable.compile {p : Node → Expression → Prop} (bindable : Bindable p) {query : String}
    {e : Expression} (h : compile query = .ok e) : ∃ node, parse query = .ok node ∧ p node e := by
  obtain ⟨node, parsed, bound⟩ := compileWith_eq_ok_iff.mp h
  exact ⟨node, parsed, bindable.bind node (legible_of_parse parsed) bound⟩

end JsonQuery.Query
