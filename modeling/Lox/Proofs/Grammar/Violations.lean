import Lox.Proofs.Grammar.Acceptance
import Lox.Proofs.Grammar.Lenient.Strict

/-!
# Faults that do not confuse the parser

What the lenient grammar derives is parsed with one fault for each violation, in the order of the
derivation, and with no other (`parse_reports_violations`).
-/

namespace Lox.Grammar

open EStateM (Result)

/-- A derivation with every `else` at the nearest `if` tells what the parse comes to. -/
theorem parse_of_lenient {tokens : List Token} {stop : Token} (nextId : NodeId)
    {vs : List Diagnostic} (proper : ∀ t ∈ tokens, t.kind ≠ .eof) (ends : stop.kind = .eof)
    (derived : Lenient.Program False tokens vs) :
    ∃ tree, (parse (tokens ++ [stop]) nextId).result = if vs.isEmpty then .ok tree else .error vs := by
  have read := start_rest proper ends nextId
  have room : tokens.length < (tokens ++ [stop]).length + 1 := by
    rw [List.length_append]
    omega
  obtain ⟨tree, id, run, -⟩ := notes_program derived room
    (State.start (tokens ++ [stop]) nextId) (by rw [read, List.append_nil])
  exact ⟨tree, by rw [parse_eq, run]; rfl⟩

/-- Tokens of the lenient grammar are parsed without a declaration being given up: the faults are
the violations of their derivation, one for each equals sign behind what cannot be assigned to, one
for each `break` outside every loop of its function, and one for each argument or parameter behind
255 others. With every `else` at the nearest `if` there is one list of violations, and none are
violated by the programs of the grammar and by no other tokens. -/
theorem parse_reports_violations (tokens : List Token) (stop : Token) (nextId : NodeId)
    (proper : ∀ t ∈ tokens, t.kind ≠ .eof) (ends : stop.kind = .eof) :
    ((∃ vs, Lenient.Program True tokens vs) ↔ ∃ vs, Lenient.Program False tokens vs) ∧
    (∀ vs, Lenient.Program False tokens vs →
      (vs = [] → ∃ tree, (parse (tokens ++ [stop]) nextId).result = .ok tree) ∧
      (vs ≠ [] → (parse (tokens ++ [stop]) nextId).result = .error vs) ∧
      ∀ ws, Lenient.Program False tokens ws → ws = vs) ∧
    (Lenient.Program False tokens [] ↔ ∃ tree, Ebnf.Program True tokens tree) ∧
    ∀ t : Token, (Diagnostic.grammatical t .invalidAssignmentTarget).message
          = "Invalid assignment target." ∧
      (Diagnostic.grammatical t .breakOutsideLoop).message
          = "Must be inside a loop to use 'break'." ∧
      (Diagnostic.grammatical t .tooManyArguments).message
          = "Can't have more than 255 arguments." ∧
      (Diagnostic.grammatical t .tooManyParameters).message
          = "Can't have more than 255 parameters." := by
  refine ⟨Lenient.program_nearest_iff tokens, ?_, ⟨?_, ?_⟩, fun t => ⟨rfl, rfl, rfl, rfl⟩⟩
  · intro vs derived
    obtain ⟨tree, parsed⟩ := parse_of_lenient nextId proper ends derived
    refine ⟨fun none => ⟨tree, by rw [parsed, none]; rfl⟩, fun some => ?_, fun ws derived' => ?_⟩
    · rw [parsed, if_neg (by simpa using some)]
    · obtain ⟨tree', parsed'⟩ := parse_of_lenient nextId proper ends derived'
      rw [parsed] at parsed'
      cases vs <;> cases ws <;> simp_all
  · intro derived
    obtain ⟨tree, parsed⟩ := parse_of_lenient nextId proper ends derived
    exact ⟨tree, Ebnf.program_plain (program_of_parse proper ends parsed)⟩
  · rintro ⟨tree, derived⟩
    obtain ⟨tree', nearest⟩ := Ebnf.program_nearest derived
    exact Lenient.program_lenient nearest

/-- `while (f(true = a)) break; fun g() { break; }` -/
def strayTarget : List Token :=
  [⟨.keyword .while, "while", 1⟩, ⟨.symbol .leftParen, "(", 1⟩, ⟨.identifier, "f", 1⟩,
    ⟨.symbol .leftParen, "(", 1⟩, ⟨.keyword .true, "true", 1⟩, ⟨.symbol .equal, "=", 1⟩,
    ⟨.identifier, "a", 1⟩, ⟨.symbol .rightParen, ")", 1⟩, ⟨.symbol .rightParen, ")", 1⟩,
    ⟨.keyword .break, "break", 1⟩, ⟨.symbol .semicolon, ";", 1⟩, ⟨.keyword .fun, "fun", 2⟩,
    ⟨.identifier, "g", 2⟩, ⟨.symbol .leftParen, "(", 2⟩, ⟨.symbol .rightParen, ")", 2⟩,
    ⟨.symbol .leftBrace, "\x7b", 2⟩, ⟨.keyword .break, "break", 2⟩, ⟨.symbol .semicolon, ";", 2⟩,
    ⟨.symbol .rightBrace, "\x7d", 2⟩]

theorem strayTarget_derived : Lenient.Program False strayTarget
    [.grammatical ⟨.symbol .equal, "=", 1⟩ .invalidAssignmentTarget,
      .grammatical ⟨.keyword .break, "break", 2⟩ .breakOutsideLoop] := by
  have name : Lenient.Expression [⟨.identifier, "a", 1⟩] [] :=
    .mk (Lenient.assignment_of_logicOr (Lenient.logicOr_of_unary
      (.call (Lenient.call_of_primary (.name rfl)))))
  have target : Lenient.Primary Lenient.Expression [⟨.keyword .true, "true", 1⟩] false [] :=
    .literal rfl
  have assigned : Lenient.Assigned Lenient.Expression false
      [⟨.symbol .equal, "=", 1⟩, ⟨.identifier, "a", 1⟩]
      ([] ++ [.grammatical ⟨.symbol .equal, "=", 1⟩ .invalidAssignmentTarget]) := .other rfl name
  have argument := Lenient.Expression.mk
    (.mk (Lenient.logicOr_of_unary (.call (Lenient.call_of_primary target))) assigned)
  have callee : Lenient.Primary Lenient.Expression [⟨.identifier, "f", 1⟩] true [] := .name rfl
  have call : Lenient.Suffixes Lenient.Expression true
      (⟨.symbol .leftParen, "(", 1⟩ :: (_ ++ [⟨.symbol .rightParen, ")", 1⟩])) false (_ ++ []) :=
    .call rfl (.some (.one argument)) rfl .done
  have condition := Lenient.Expression.mk (Lenient.assignment_of_logicOr
    (Lenient.logicOr_of_unary (.call (.mk callee call))))
  have head : Lenient.LoopHead (⟨.keyword .while, "while", 1⟩ :: ⟨.symbol .leftParen, "(", 1⟩ ::
      (_ ++ [⟨.symbol .rightParen, ")", 1⟩])) _ := .while rfl rfl condition rfl
  have exit : Lenient.Simple true
      [⟨.keyword .break, "break", 1⟩, ⟨.symbol .semicolon, ";", 1⟩] [] := .break rfl rfl
  have loop : Lenient.Statement False false false _ _ := .loop head (.simple exit)
  have stray : Lenient.Simple false
      [⟨.keyword .break, "break", 2⟩, ⟨.symbol .semicolon, ";", 2⟩]
      [.grammatical ⟨.keyword .break, "break", 2⟩ .breakOutsideLoop] := .strayBreak rfl rfl
  have function : Lenient.Function (Lenient.Body False false)
      (⟨.identifier, "g", 2⟩ :: ⟨.symbol .leftParen, "(", 2⟩ :: ([] ++ ⟨.symbol .rightParen, ")", 2⟩
        :: ⟨.symbol .leftBrace, "\x7b", 2⟩ :: (_ ++ [⟨.symbol .rightBrace, "\x7d", 2⟩]))) ([] ++ _) :=
    .mk rfl rfl .none rfl rfl (.cons (.statement (.simple stray)) .nil) rfl
  have routine : Lenient.Declaration False false (⟨.keyword .fun, "fun", 2⟩ :: _) _ :=
    .function rfl function
  exact .cons (.statement loop) (.cons routine .nil)

theorem parse_reports_stray_target :
    (∀ t ∈ strayTarget, t.kind ≠ .eof) ∧
      (parse (strayTarget ++ [⟨.eof, "", 2⟩]) 0).result =
        .error [.grammatical ⟨.symbol .equal, "=", 1⟩ .invalidAssignmentTarget,
          .grammatical ⟨.keyword .break, "break", 2⟩ .breakOutsideLoop] := by
  have proper : ∀ t ∈ strayTarget, t.kind ≠ .eof := by decide
  have reported := parse_reports_violations strayTarget ⟨.eof, "", 2⟩ 0 proper rfl
  exact ⟨proper, (reported.2.1 _ strayTarget_derived).2.1 (List.cons_ne_nil _ _)⟩

end Lox.Grammar
