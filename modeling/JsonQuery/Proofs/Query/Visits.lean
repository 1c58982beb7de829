import JsonQuery.Proofs.Query.Binding

/-!
# Walking through a tree

Binding goes through a tree depth first. It enters a call by looking up its name, goes through the
arguments from left to right, and leaves the call by running its constructor on what they were bound
to. `Node.visits` lists these events in order and `Registry.walk` goes through such a list, which has
no structure of a tree any more, up to the first event that fails. Binding is this walk
(`walk_visits`), so its error is the one of the first event that fails (`bind_visits`).
-/

namespace JsonQuery.Query

inductive Visit where
  | literal (l : Literal)
  | enter (name : String)
  /-- a call with this number of arguments ends -/
  | leave (name : String) (count : Nat)
  deriving DecidableEq, Repr

namespace Node

mutual

/-- A call is entered in front of its arguments and left behind them. -/
def visits : Node → List Visit
  | .literal l => [.literal l]
  | .call name args => .enter name :: (visitsAll args ++ [.leave name args.length])

def visitsAll : List Node → List Visit
  | [] => []
  | arg :: rest => visits arg ++ visitsAll rest

end

end Node

namespace Registry

variable (registry : Registry)

def lookup (name : String) : Except BindError Constructor :=
  match registry.get? name with
  | none => .error (.unknownFunction name)
  | some build => .ok build

/-- What a visit makes of the results that no call has used yet, the last one in front. The
constructor of a call is the one that was there when the call was entered. -/
def visit (results : List Expression) : Visit → Except BindError (List Expression)
  | .literal l => .ok (.constant l.value :: results)
  | .enter name => do
    let _ ← registry.lookup name
    return results
  | .leave name count => do
    let build ← registry.lookup name
    let e ← build (results.take count).reverse
    return e :: results.drop count

def walk (visits : List Visit) (results : List Expression) :
    Except BindError (List Expression) := visits.foldlM registry.visit results

variable {registry}

theorem walk_append (a b : List Visit) (results : List Expression) :
    registry.walk (a ++ b) results = registry.walk a results >>= registry.walk b :=
  List.foldlM_append

theorem walk_cons (visit : Visit) (rest : List Visit) (results : List Expression) :
    registry.walk (visit :: rest) results = registry.visit results visit >>= registry.walk rest :=
  List.foldlM_cons

theorem length_of_bindAll {nodes : List Node} {bound : List Expression}
    (h : registry.bindAll nodes = .ok bound) : bound.length = nodes.length := by
  induction nodes generalizing bound with
  | nil =>
    cases h
    rfl
  | cons node rest ih =>
    obtain ⟨e, -, h⟩ := bind_eq_ok_iff.mp h
    obtain ⟨others, more, h⟩ := bind_eq_ok_iff.mp h
    cases h
    rw [List.length_cons, List.length_cons, ih more]

/-- A walk fails at the first visit that does, all those in front of it being done. -/
theorem walk_eq_error_iff {visits : List Visit} {results : List Expression} {error : BindError} :
    registry.walk visits results = .error error ↔
      ∃ before visit after between, visits = before ++ visit :: after ∧
        registry.walk before results = .ok between ∧
        registry.visit between visit = .error error := by
  induction visits generalizing results with
  | nil =>
    constructor
    · intro failed
      cases failed
    · rintro ⟨before, visit, after, between, same, -⟩
      cases before <;> cases same
  | cons first rest ih =>
    rw [walk_cons, bind_eq_error_iff]
    constructor
    · rintro (here | ⟨next, done, failed⟩)
      · exact ⟨[], first, rest, results, rfl, rfl, here⟩
      · obtain ⟨before, visit, after, between, rfl, walked, there⟩ := ih.mp failed
        refine ⟨first :: before, visit, after, between, rfl, ?_, there⟩
        rw [walk_cons, done]
        exact walked
    · rintro ⟨before, visit, after, between, same, walked, there⟩
      cases before with
      | nil =>
        cases same
        cases walked
        exact .inl there
      | cons _ before =>
        cases same
        rw [walk_cons] at walked
        obtain ⟨next, done, walked⟩ := bind_eq_ok_iff.mp walked
        exact .inr ⟨next, done, ih.mpr ⟨before, visit, after, between, rfl, walked, there⟩⟩

/-- A constructor gets the results since its call was entered. -/
theorem visit_leave {name : String} {build : Constructor} (found : registry.get? name = some build)
    (bound results : List Expression) :
    registry.visit (bound.reverse ++ results) (.leave name bound.length) =
      (build bound).map (· :: results) := by
  have front : (bound.reverse ++ results).take bound.length = bound.reverse :=
    List.take_left' List.length_reverse
  have back : (bound.reverse ++ results).drop bound.length = results :=
    List.drop_left' List.length_reverse
  rw [visit, lookup, found, front, back, List.reverse_reverse]
  show (build bound >>= fun e => .ok (e :: results)) = _
  cases build bound <;> rfl

mutual

/-- Walking through a tree leaves its expression behind. -/
theorem walk_visits (node : Node) (results : List Expression) :
    registry.walk node.visits results = (registry.bind node).map (· :: results) := by
  match node with
  | .literal l => rfl
  | .call name args =>
    rw [Node.visits, walk_cons, visit, lookup, Registry.bind]
    cases found : registry.get? name with
    | none => rfl
    | some build =>
      show registry.walk (Node.visitsAll args ++ [.leave name args.length]) results =
        Except.map _ (registry.bindAll args >>= build)
      rw [walk_append, walk_visitsAll args]
      cases all : registry.bindAll args with
      | error error => rfl
      | ok bound =>
        -- the results of the calls around this one stay below those of its arguments
        show registry.walk [.leave name args.length] (bound.reverse ++ results) =
          (build bound).map _
        rw [walk_cons, ← length_of_bindAll all, visit_leave found]
        cases build bound <;> rfl

theorem walk_visitsAll (nodes : List Node) (results : List Expression) :
    registry.walk (Node.visitsAll nodes) results =
      (registry.bindAll nodes).map fun bound => bound.reverse ++ results := by
  match nodes with
  | [] => rfl
  | node :: rest =>
    rw [Node.visitsAll, walk_append, walk_visits node, bindAll]
    cases registry.bind node with
    | error error => rfl
    | ok e =>
      show registry.walk (Node.visitsAll rest) (e :: results) =
        Except.map _ (registry.bindAll rest >>= fun others => .ok (e :: others))
      rw [walk_visitsAll rest]
      cases registry.bindAll rest with
      | error error => rfl
      | ok others =>
        show Except.ok (others.reverse ++ e :: results) =
          Except.ok ((e :: others).reverse ++ results)
        rw [List.reverse_cons, List.append_assoc]
        rfl

end

/-- An argument is left before the next one is entered. -/
example : (Node.call "and" [.call "not" [.call "id" []], .literal .null]).visits =
    [.enter "and", .enter "not", .enter "id", .leave "id" 0, .leave "not" 1, .literal .null,
      .leave "and" 2] := rfl

theorem bind_eq_ok_iff_walk {node : Node} {e : Expression} :
    registry.bind node = .ok e ↔ registry.walk node.visits [] = .ok [e] := by
  rw [walk_visits]
  cases registry.bind node <;> simp [Except.map]

theorem bind_eq_error_iff_walk {node : Node} {error : BindError} :
    registry.bind node = .error error ↔ registry.walk node.visits [] = .error error := by
  rw [walk_visits, map_eq_error_iff]

theorem bindAll_of_error {before : List Node} {arg : Node} {error : BindError}
    (earlier : ∀ node ∈ before, ∃ e, registry.bind node = .ok e)
    (failed : registry.bind arg = .error error) (after : List Node) :
    registry.bindAll (before ++ arg :: after) = .error error := by
  induction before with
  | nil =>
    rw [List.nil_append, bindAll, failed]
    rfl
  | cons node rest ih =>
    obtain ⟨⟨e, first⟩, earlier⟩ := List.forall_mem_cons.mp earlier
    rw [List.cons_append, bindAll, first, ih earlier]
    rfl

/-- A tree is bound to what the walk through it leaves behind, and with the error of the first visit
that fails. So an unknown name is reported before all errors in the arguments of its call, and an
error in an argument before those of the arguments behind it and of the constructor. -/
theorem bind_visits (registry : Registry) :
    (∀ node e, registry.bind node = .ok e ↔ registry.walk node.visits [] = .ok [e]) ∧
    (∀ node, (∃ e, registry.bind node = .ok e) ↔
      ∀ before visit after results, node.visits = before ++ visit :: after →
        registry.walk before [] = .ok results →
        ∃ next, registry.visit results visit = .ok next) ∧
    (∀ node error, registry.bind node = .error error ↔
      ∃ before visit after results, node.visits = before ++ visit :: after ∧
        registry.walk before [] = .ok results ∧ registry.visit results visit = .error error) ∧
    (∀ name args, registry.get? name = none →
      registry.bind (.call name args) = .error (.unknownFunction name)) ∧
    ∀ name build before arg after error, registry.get? name = some build →
      (∀ node ∈ before, ∃ e, registry.bind node = .ok e) → registry.bind arg = .error error →
      registry.bind (.call name (before ++ arg :: after)) = .error error := by
  refine ⟨fun node e => bind_eq_ok_iff_walk, fun node => ?success, fun node error => ?failure,
    fun name args unknown => ?unknown, ?argument⟩
  case success =>
    simp only [isOk_iff_forall_ne, ne_eq, bind_eq_error_iff_walk, walk_eq_error_iff]
    constructor
    · intro none before visit after results same walked error failed
      exact none error ⟨before, visit, after, results, same, walked, failed⟩
    · rintro all error ⟨before, visit, after, results, same, walked, failed⟩
      exact all before visit after results same walked error failed
  case failure => rw [bind_eq_error_iff_walk, walk_eq_error_iff]
  case unknown => rw [Registry.bind, unknown]
  case argument =>
    intro name build before arg after error found earlier failed
    rw [Registry.bind, found]
    show registry.bindAll _ >>= build = _
    rw [bindAll_of_error earlier failed after]
    rfl

theorem bind_visits_unknown :
    Registry.standard.get? "first" = none ∧
    (∃ build, Registry.standard.get? "array" = some build) ∧
    (∃ e, Registry.standard.bind (.call "id" []) = .ok e) ∧
    Registry.standard.bind (.call "array" [.call "id" [], .call "first" [.call "not" []],
      .call "keys" [.call "id" []]]) = .error (.unknownFunction "first") := by
  obtain ⟨-, -, -, unknown, argument⟩ := bind_visits Registry.standard
  have missing : Registry.standard.get? "first" = none := by decide
  have earlier : ∃ e, Registry.standard.bind (.call "id" []) = .ok e := ⟨.identity, rfl⟩
  refine ⟨missing, ⟨_, rfl⟩, earlier, ?_⟩
  exact argument "array" _ [.call "id" []] (.call "first" [.call "not" []])
    [.call "keys" [.call "id" []]] _ rfl (List.forall_mem_singleton.mpr earlier)
    (unknown "first" _ missing)

end Registry

end JsonQuery.Query
