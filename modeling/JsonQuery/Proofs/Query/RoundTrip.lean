import JsonQuery.Proofs.Query.Lexing

/-!
# Texts of trees

A tree is written as a text and read back from it. A list is read by the machine of the parser, so
the text is first related to a derivation of the grammar (`reads_write`).
-/

namespace JsonQuery.Query

theorem stops_writeArgs (args : List Node) (more : List Char) :
    Stops (Node.writeArgs args ++ ')' :: more) := by
  cases args with
  | nil => exact fun c mem => Or.inr (Option.some.inj mem).symm
  | cons arg rest => exact fun c mem => Or.inl (Option.some.inj mem).symm

mutual

theorem reads_write {node : Node} (legible : node.Legible) {more : List Char}
    (stops : Stops more) : ∃ words, Derives words node ∧ Reads node.write words more := by
  match node with
  | .literal l =>
    cases legible with
    | literal proper => exact ⟨_, .literal l, reads_literal stops proper⟩
  | .call name args =>
    cases legible with
    | call identifier inner =>
      obtain ⟨body, derived, read⟩ := reads_writeArgs inner more
      have closed : Reads (Node.writeArgs args ++ [')']) (body ++ [.rparen]) more :=
        Reads.append read (reads_rparen more)
      have word : Reads name.toList [.identifier name]
          ((Node.writeArgs args ++ [')']) ++ more) := by
        rw [List.append_assoc]
        exact reads_identifier (stops_writeArgs args more) identifier
      exact ⟨_, .call name derived, (reads_lparen _).append (word.append closed)⟩

theorem reads_writeArgs {args : List Node} (legible : ∀ arg ∈ args, arg.Legible)
    (more : List Char) :
    ∃ words, DerivesAll words args ∧ Reads (Node.writeArgs args) words (')' :: more) := by
  match args with
  | [] => exact ⟨_, .nil, .nil _⟩
  | arg :: rest =>
    obtain ⟨here, there⟩ := List.forall_mem_cons.mp legible
    obtain ⟨first, derived, read⟩ := reads_write here (stops_writeArgs rest more)
    obtain ⟨others, derivedAll, readAll⟩ := reads_writeArgs there more
    exact ⟨_, .cons derived derivedAll, (read.append readAll).blank rfl⟩

end

/-- The text of a legible tree within the limit is a query with this tree. -/
theorem parse_write {node : Node} (legible : node.Legible) (small : node.nesting ≤ maxNesting) :
    parse node.text = .ok node := by
  have stops : Stops [] := nofun
  obtain ⟨words, derived, read⟩ := reads_write legible stops
  exact parse_of_derives (tokenize_of_reads read) derived small

/-- The text of a tree has this tree again, if the names are identifiers, no integer is negative and
at most 256 lists are nested. The trees of queries are such trees. -/
theorem parse_text :
    (∀ node : Node, node.Legible → node.nesting ≤ 256 → parse node.text = .ok node) ∧
      ∀ query node, parse query = .ok node → parse node.text = .ok node := by
  refine ⟨fun node legible small => parse_write legible small, fun query node parsed => ?_⟩
  obtain ⟨-, -, -, small⟩ := derives_of_parse parsed
  exact parse_write (legible_of_parse parsed) small

/-- A tree with a call without arguments, escapes, the greatest integer and a word. -/
def escapes : Node :=
  .call "join" [.call "x1" [], .literal (.string "\"\\\n\u0001ü"),
    .literal (.integer 9223372036854775807), .literal .null]

theorem legible_escapes : escapes.Legible := by
  refine .call (by decide) fun arg mem => ?_
  simp only [List.mem_cons, List.not_mem_nil, or_false] at mem
  rcases mem with rfl | rfl | rfl | rfl
  · exact .call (by decide) (List.forall_mem_nil _)
  · exact .literal trivial
  · exact .literal (show (0 : Int64) ≤ 9223372036854775807 by decide)
  · exact .literal trivial

theorem parse_text_escapes :
    escapes.text = "(join (x1) \"\\\"\\\\\\n\\u0001ü\" 9223372036854775807 null)" ∧
      parse escapes.text = .ok escapes :=
  ⟨by decide +kernel, parse_text.1 escapes legible_escapes (by decide)⟩

end JsonQuery.Query
