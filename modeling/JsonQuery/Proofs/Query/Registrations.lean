import JsonQuery.Proofs.Query.Failures

/-!
# Registrations

A registry is what a row of registrations leaves behind, and of several under one name it keeps the
last one (`get?_ofRegistrations`). A query asks its registry for nothing but the functions that it
calls. These are named behind its parentheses, and a parenthesis without a name calls the implicit
function (`names_of_derives`). Registries that agree on these names compile a query to the same
expression or to the same error (`compileWith_registrations`).
-/

namespace JsonQuery.Query

/-! ### The functions that a query calls -/

namespace Node

mutual

/-- The functions that a tree calls, in the order of the text. -/
def names : Node → List String
  | .literal _ => []
  | .call name args => name :: namesAll args

def namesAll : List Node → List String
  | [] => []
  | arg :: rest => names arg ++ namesAll rest

end

end Node

/-- The function of the list whose parenthesis stands in front of the tokens. -/
def callee : List Token → String
  | .identifier name :: _ => name
  | _ => Node.implicitFunction

/-- The functions that are called by the lists that open in the tokens. -/
def called : List Token → List String
  | [] => []
  | .lparen :: rest => callee rest :: called rest
  | _ :: rest => called rest

/-- An expression does not start with a name. -/
theorem callee_of_derives {words : List Token} {node : Node} (derived : Derives words node)
    (more : List Token) : callee (words ++ more) = Node.implicitFunction := by
  cases derived <;> rfl

theorem callee_of_derivesAll {body : List Token} {args : List Node}
    (derived : DerivesAll body args) (few : args.length = 1 ∨ args.length = 2)
    (more : List Token) : callee (body ++ more) = Node.implicitFunction := by
  cases derived with
  | nil => simp at few
  | cons head tail =>
    rw [List.append_assoc]
    exact callee_of_derives head _

mutual

theorem called_of_derives {words : List Token} {node : Node} (derived : Derives words node)
    (more : List Token) : called (words ++ more) = node.names ++ called more := by
  match derived with
  | .literal _ => rfl
  | @Derives.call body _ name elements =>
    have inner := called_of_derivesAll elements (.rparen :: more)
    show name :: called ((body ++ [.rparen]) ++ more) = _
    rw [List.append_assoc, List.singleton_append, inner]
    rfl
  | @Derives.headless body _ elements few =>
    have head := callee_of_derivesAll elements few (.rparen :: more)
    have inner := called_of_derivesAll elements (.rparen :: more)
    show callee ((body ++ [.rparen]) ++ more) :: called ((body ++ [.rparen]) ++ more) = _
    rw [List.append_assoc, List.singleton_append, head, inner]
    rfl

theorem called_of_derivesAll {words : List Token} {args : List Node}
    (derived : DerivesAll words args) (more : List Token) :
    called (words ++ more) = Node.namesAll args ++ called more := by
  match derived with
  | .nil => rfl
  | .cons head tail =>
    rw [List.append_assoc, called_of_derives head, called_of_derivesAll tail, Node.namesAll,
      List.append_assoc]

end

/-- The names in a tree can be read off the tokens, but for the implicit one. -/
theorem names_of_derives {tokens : List Token} {node : Node} (derived : Derives tokens node) :
    node.names = called tokens := by
  have all := called_of_derives derived []
  rw [List.append_nil, called, List.append_nil] at all
  exact all.symm

/-! ### Registries -/

abbrev Registration := String × Constructor

namespace Registry

/-- What registrations from left to right leave behind. -/
def ofRegistrations (history : List Registration) : Registry :=
  history.foldl (fun registry r => registry.register r.1 r.2) empty

/-- The function that was registered last under a name. -/
def last? (history : List Registration) (name : String) : Option Constructor :=
  (history.filter fun r => r.1 = name).getLast?.map Prod.snd

theorem last?_snoc (history : List Registration) (r : Registration) (name : String) :
    last? (history ++ [r]) name = if r.1 = name then some r.2 else last? history name := by
  unfold last?
  rw [List.filter_append, List.filter_singleton]
  by_cases same : r.1 = name
  · simp [same]
  · simp [same]

theorem get?_register (registry : Registry) (name : String) (build : Constructor)
    (other : String) :
    (registry.register name build).get? other =
      if name = other then some build else registry.get? other :=
  Entries.find?_insert name other build registry

/-- Of the functions that are registered under a name the last one counts. -/
theorem get?_ofRegistrations (history : List Registration) (name : String) :
    (ofRegistrations history).get? name = last? history name := by
  induction history using List.reverseRecOn with
  | nil => rfl
  | append_singleton history r ih =>
    rw [last?_snoc, ← ih, ← get?_register]
    exact congrArg (get? · name) List.foldl_append

variable {registry registry' : Registry}

mutual

/-- Binding looks up the names in a tree and no others. -/
theorem bind_congr (node : Node)
    (agree : ∀ name ∈ node.names, registry.get? name = registry'.get? name) :
    registry.bind node = registry'.bind node := by
  match node with
  | .literal _ => rfl
  | .call name args =>
    obtain ⟨here, inside⟩ := List.forall_mem_cons.mp agree
    rw [Registry.bind, Registry.bind, here, bindAll_congr args inside]

theorem bindAll_congr (nodes : List Node)
    (agree : ∀ name ∈ Node.namesAll nodes, registry.get? name = registry'.get? name) :
    registry.bindAll nodes = registry'.bindAll nodes := by
  match nodes with
  | [] => rfl
  | node :: rest =>
    obtain ⟨here, there⟩ := List.forall_mem_append.mp agree
    rw [bindAll, bindAll, bind_congr node here, bindAll_congr rest there]

end

end Registry

/-! ### Compiling -/

theorem compileWith_congr {query : String} {registry registry' : Registry}
    (agree : ∀ node, parse query = .ok node → ∀ name ∈ node.names,
      registry.get? name = registry'.get? name) :
    compileWith registry query = compileWith registry' query := by
  unfold compileWith
  cases parsed : parse query with
  | error problem => rfl
  | ok node =>
    have bound := Registry.bind_congr node (agree node parsed)
    dsimp only
    rw [bound]

/-- An error in tokens or in their order is found before any name is looked up. -/
theorem compileWith_eq_error {query : String} {registry : Registry} {problem : CompileError}
    (early : ∀ error, problem ≠ .bind error) :
    compileWith registry query = .error problem ↔
      ∃ error, parse query = .error error ∧ CompileError.ofParseError error = problem := by
  unfold compileWith
  cases parse query with
  | error error => simp
  | ok node =>
    dsimp only
    cases registry.bind node with
    | ok e => simp [Except.mapError]
    | error error => simp [Except.mapError, (early error).symm]

/-- What a query compiles to, errors included, depends on a registry only through the functions that
were registered last under the names that the query calls. The implicit function is one of these as
soon as a list has no name. Errors in tokens and in their order do not depend on it at all. -/
theorem compileWith_registrations (query : String) :
    (∀ node, parse query = .ok node → ∃ tokens,
      tokenize query = .ok (tokens ++ [.eof]) ∧ node.names = called tokens) ∧
    (∀ history history' : List Registration,
      (∀ node, parse query = .ok node → ∀ name ∈ node.names,
        Registry.last? history name = Registry.last? history' name) →
      compileWith (.ofRegistrations history) query =
        compileWith (.ofRegistrations history') query) ∧
    (∀ (registry registry' : Registry) (problem : CompileError),
      (∀ error, problem ≠ .bind error) →
      (compileWith registry query = .error problem ↔
        compileWith registry' query = .error problem)) ∧
    ∀ (registry : Registry) (name : String) (build : Constructor),
      (∀ node, parse query = .ok node → name ∉ node.names) →
      compileWith (registry.register name build) query = compileWith registry query := by
  refine ⟨?names, ?agreeing, ?early, ?further⟩
  case names =>
    intro node parsed
    obtain ⟨tokens, lexed, derived, -⟩ := derives_of_parse parsed
    exact ⟨tokens, lexed, names_of_derives derived⟩
  case agreeing =>
    intro history history' agree
    apply compileWith_congr
    intro node parsed name mem
    rw [Registry.get?_ofRegistrations, Registry.get?_ofRegistrations]
    exact agree node parsed name mem
  case early =>
    intro registry registry' problem early
    rw [compileWith_eq_error early, compileWith_eq_error early]
  case further =>
    intro registry name build fresh
    apply compileWith_congr
    intro node parsed other mem
    have ne : name ≠ other := by
      rintro rfl
      exact fresh node parsed mem
    rw [Registry.get?_register, if_neg ne]

/-- A list without a name calls what `elem` stands for now, and not what it stood for before. -/
theorem compileWith_registrations_implicit :
    ∃ node, parse "(not (\"a\"))" = .ok node ∧ node.names = ["not", "elem"] ∧
      compileWith (.ofRegistrations [("elem", Builtin.keys.build), ("not", Builtin.not.build),
        ("id", Builtin.error.build), ("elem", Builtin.elem.build)]) "(not (\"a\"))" =
      compileWith (.ofRegistrations
        (Builtin.all.map fun builtin => (builtin.name, builtin.build))) "(not (\"a\"))" ∧
      compileWith (Registry.standard.register "keys" Builtin.id.build) "(not (\"a\"))" =
        compile "(not (\"a\"))" := by
  have parsed : parse "(not (\"a\"))" =
      .ok (.call "not" [.call "elem" [.literal (.string "a")]]) := by cbv
  obtain ⟨-, agreeing, -, further⟩ := compileWith_registrations "(not (\"a\"))"
  refine ⟨_, parsed, rfl, ?_, ?_⟩
  · apply agreeing
    intro node same
    cases parsed.symm.trans same
    exact List.forall_mem_cons.mpr ⟨rfl, List.forall_mem_singleton.mpr rfl⟩
  · apply further
    intro node same
    cases parsed.symm.trans same
    decide

end JsonQuery.Query
