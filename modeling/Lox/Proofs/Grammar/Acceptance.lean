import Lox.Proofs.Grammar.Cursor
import Lox.Proofs.Grammar.Dangling

/-!
# What the parser accepts

The parser accepts the programs of the grammar and yields the derived tree.
-/

namespace Lox.Grammar

open EStateM (Result)

/-- Without a closing token, declarations are read up to the end. -/
theorem declarations_end {one : Rule (Option Stmt)} {fuel : Nat} {s t : State} {ss : List Stmt}
    (run : declarations none one fuel s = .ok ss t) : t.rest = [] := by
  induction fuel generalizing s t ss with
  | zero => cases run
  | succ fuel ih =>
    obtain ⟨closed, m, first, run⟩ := bind_ok run
    obtain ⟨ended, m', second, run⟩ := bind_ok run
    obtain ⟨rfl, rfl⟩ : false = closed ∧ s = m := by
      change Result.ok false s = Result.ok closed m at first
      injection first with a b
      exact ⟨a, b⟩
    obtain ⟨rfl, rfl⟩ : s.rest.isEmpty = ended ∧ s = m' := by
      change Result.ok s.rest.isEmpty s = Result.ok ended m' at second
      injection second with a b
      exact ⟨a, b⟩
    split at run
    · next empty =>
      cases run
      simpa using empty
    · obtain ⟨o, m, -, run⟩ := bind_ok run
      cases o with
      | none => exact ih run
      | some s' =>
        obtain ⟨others, m', run, finished⟩ := bind_ok run
        cases finished
        exact ih run

theorem start_rest {tokens : List Token} {stop : Token} (proper : ∀ t ∈ tokens, t.kind ≠ .eof)
    (ends : stop.kind = .eof) (nextId : NodeId) :
    (State.start (tokens ++ [stop]) nextId).rest = tokens := by
  have all : ∀ t ∈ tokens, (t.kind != .eof) = true := fun t mem => by simpa using proper t mem
  rw [State.start, List.takeWhile_append_of_pos all]
  simp [ends]

/-- A parse without faults read its tokens as a program, all of them up to the first end marker. -/
theorem derived_of_parse {tokens : List Token} {nextId : NodeId} {tree : List Stmt}
    (parsed : (parse tokens nextId).result = .ok tree) :
    Ebnf.Program False (tokens.takeWhile (·.kind != .eof)) tree := by
  rw [parse_eq] at parsed
  cases run : program (tokens.length + 1) (State.start tokens nextId) with
  | error e s =>
    rw [run] at parsed
    cases e <;> cases parsed
  | ok tree' s =>
    rw [run] at parsed
    have finished : s.rest = [] := declarations_end run
    rw [Parsed.ofResult_ok] at parsed
    dsimp only at parsed
    split at parsed
    · next silent =>
      cases parsed
      obtain ⟨ts, split, derived⟩ := (reads_program _).derives run (List.isEmpty_iff.1 silent)
      rw [finished, List.append_nil] at split
      have same : tokens.takeWhile (·.kind != .eof) = ts := split
      exact same ▸ derived
    · cases parsed

theorem program_of_parse {tokens : List Token} {stop : Token} {nextId : NodeId} {tree : List Stmt}
    (proper : ∀ t ∈ tokens, t.kind ≠ .eof) (ends : stop.kind = .eof)
    (parsed : (parse (tokens ++ [stop]) nextId).result = .ok tree) :
    Ebnf.Program False tokens tree := by
  have derived := derived_of_parse parsed
  have read : (tokens ++ [stop]).takeWhile (·.kind != .eof) = tokens :=
    start_rest proper ends nextId
  rwa [read] at derived

/-- A program with every `else` at the nearest `if` is parsed as that program. -/
theorem parse_of_program {tokens : List Token} {stop : Token} (nextId : NodeId)
    {tree : List Stmt} (proper : ∀ t ∈ tokens, t.kind ≠ .eof) (ends : stop.kind = .eof)
    (derived : Ebnf.Program False tokens tree) :
    ∃ tree', (parse (tokens ++ [stop]) nextId).result = .ok tree' ∧
      Stmt.unnumberedAll tree' = Stmt.unnumberedAll tree := by
  have read := start_rest proper ends nextId
  have room : tokens.length < (tokens ++ [stop]).length + 1 := by
    rw [List.length_append]
    omega
  obtain ⟨tree', id, run, same⟩ := takes_program derived room
    (State.start (tokens ++ [stop]) nextId) (by rw [read, List.append_nil])
  refine ⟨tree', ?_, same⟩
  rw [parse_eq, run]
  rfl

/-- The parser accepts exactly the programs of the grammar. What it yields is the tree of a
derivation in which every `else` belongs to the nearest `if`, and up to identities there is only one
such tree. -/
theorem parse_accepts_programs (tokens : List Token) (stop : Token) (nextId : NodeId)
    (proper : ∀ t ∈ tokens, t.kind ≠ .eof) (ends : stop.kind = .eof) :
    ((∃ tree, (parse (tokens ++ [stop]) nextId).result = .ok tree) ↔
      ∃ tree, Ebnf.Program True tokens tree) ∧
    ∀ tree, (parse (tokens ++ [stop]) nextId).result = .ok tree →
      Ebnf.Program True tokens tree ∧ Ebnf.Program False tokens tree ∧
      ∀ other, Ebnf.Program False tokens other →
        Stmt.unnumberedAll other = Stmt.unnumberedAll tree := by
  refine ⟨⟨?_, ?_⟩, ?_⟩
  · intro found
    obtain ⟨tree, parsed⟩ := found
    exact ⟨tree, Ebnf.program_plain (program_of_parse proper ends parsed)⟩
  · intro found
    obtain ⟨tree, derived⟩ := found
    obtain ⟨tree', nearest⟩ := Ebnf.program_nearest derived
    obtain ⟨tree'', parsed, -⟩ := parse_of_program nextId proper ends nearest
    exact ⟨tree'', parsed⟩
  · intro tree parsed
    have derived := program_of_parse proper ends parsed
    refine ⟨Ebnf.program_plain derived, derived, fun other derived' => ?_⟩
    obtain ⟨tree', parsed', same⟩ := parse_of_program nextId proper ends derived'
    rw [parsed] at parsed'
    cases parsed'
    exact same.symm

/-- `if (true) if (false) print true; else print nil;` -/
def danglingElse : List Token :=
  [⟨.keyword .if, "if", 1⟩, ⟨.symbol .leftParen, "(", 1⟩, ⟨.keyword .true, "true", 1⟩,
    ⟨.symbol .rightParen, ")", 1⟩, ⟨.keyword .if, "if", 1⟩, ⟨.symbol .leftParen, "(", 1⟩,
    ⟨.keyword .false, "false", 1⟩, ⟨.symbol .rightParen, ")", 1⟩, ⟨.keyword .print, "print", 1⟩,
    ⟨.keyword .true, "true", 1⟩, ⟨.symbol .semicolon, ";", 1⟩, ⟨.keyword .else, "else", 1⟩,
    ⟨.keyword .print, "print", 1⟩, ⟨.keyword .nil, "nil", 1⟩, ⟨.symbol .semicolon, ";", 1⟩]

theorem parse_accepts_dangling_else :
    (∀ t ∈ danglingElse, t.kind ≠ .eof) ∧ (⟨.eof, "", 1⟩ : Token).kind = .eof ∧
      Ebnf.Program False danglingElse
        [.ite (.literal (.bool true)) (.ite (.literal (.bool false)) (.print (.literal (.bool true)))
          (some (.print (.literal .nil)))) none] := by
  refine ⟨by decide, rfl, ?_⟩
  have accepted := parse_accepts_programs danglingElse ⟨.eof, "", 1⟩ 0 (by decide) rfl
  exact (accepted.2 _ rfl).2.1

end Lox.Grammar
