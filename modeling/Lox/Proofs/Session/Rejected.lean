import Lox.Proofs.Session.Reachable

/-!
# Texts with faults

What is wrong with a text depends on the text alone (`sourceFaults`). Such a text is rejected with
all its faults, and no later text can tell that it was there, even if the walk recorded distances
for its nodes before it found a fault (`rejected_without_trace`).
-/

namespace Lox

/-- What is no token, in the order of the text. -/
def lexicalFaults (source : String) : List Diagnostic :=
  (scan source).filterMap Scanned.diagnostic?

/-- What is wrong with the order of the tokens. -/
def syntaxFaults (source : String) : List Diagnostic :=
  match (Grammar.parse (tokenize source).1 0).result with
  | .ok _ => []
  | .error faults => faults

/-- What is wrong with names and jumps of a text that is a program. -/
def bindingFaults (source : String) : List Diagnostic :=
  match (Grammar.parse (tokenize source).1 0).result with
  | .ok program => (Binding.program program).faults
  | .error _ => []

/-- Everything that is wrong with a text. Names and jumps count only if nothing else is wrong. -/
def sourceFaults (source : String) : List Diagnostic :=
  let faults := lexicalFaults source ++ syntaxFaults source
  if faults.isEmpty then bindingFaults source else faults

/-- The faults that a text is rejected with once it has been read. -/
def readingFaults : Except (List Diagnostic) (List Stmt) → List Diagnostic
  | .ok program => (Binding.program program).faults
  | .error faults => faults

theorem readingFaults_paired {r r' : Except (List Diagnostic) (List Stmt)}
    (h : PairedReading Eq (PairedBody (.ofLines Eq)) r r') : readingFaults r = readingFaults r' := by
  cases h with
  | ok same => exact paired_faults (walk_faults same)
  | error same => exact paired_faults same

/-- A text has the same faults whatever numbers its nodes get. -/
theorem compile_faults (source : String) (nextId : NodeId) :
    readingFaults (compile source nextId).result = sourceFaults source := by
  rw [readingFaults_paired (compile_paired source nextId 0)]
  unfold compile sourceFaults syntaxFaults bindingFaults
  dsimp only
  change readingFaults (match (Grammar.parse (tokenize source).1 0).result with
    | .ok program =>
      if (lexicalFaults source).isEmpty then .ok program else .error (lexicalFaults source)
    | .error more => .error (lexicalFaults source ++ more)) = _
  cases (Grammar.parse (tokenize source).1 0).result with
  | ok program =>
    dsimp only
    rw [List.append_nil]
    split <;> rfl
  | error more =>
    dsimp only
    split
    · next none => exact List.isEmpty_iff.1 none
    · rfl

/-! ### Runs -/

section Runs

variable (m : Machine) (fuel : Nat)

theorem runProgram_rejected {program : List Stmt} (faulty : (Binding.program program).faults ≠ []) :
    m.runProgram fuel program = (.rejected (Binding.program program).faults, (m.bind program).2) :=
  if_neg fun none => faulty (List.isEmpty_iff.1 none)

theorem run_faulty {source : String} (faulty : sourceFaults source ≠ []) :
    (m.run fuel source).1 = .rejected (sourceFaults source) ∧
      Advances m (m.run fuel source).2 := by
  have numbered := compile_numbered source m.nextNode
  have faults := compile_faults source m.nextNode
  unfold Machine.run
  dsimp only
  cases read : (compile source m.nextNode).result with
  | error more =>
    rw [read] at faults
    exact ⟨congrArg Outcome.rejected faults, advances_next numbered.le⟩
  | ok program =>
    rw [read] at faults
    change (Binding.program program).faults = _ at faults
    dsimp only
    rw [runProgram_rejected _ fuel (faults ▸ faulty)]
    exact ⟨congrArg Outcome.rejected faults, advances_bind numbered.le (numbered.fresh _ read)⟩

end Runs

/-- A text with a fault in it is rejected with all its faults. Nothing was written or read, and
later texts are answered as if it had not been there. -/
theorem rejected_without_trace {m : Machine} (reachable : m.Reachable) (fuel : Nat) {source : String}
    (faulty : sourceFaults source ≠ []) :
    (m.run fuel source).1 = .rejected (sourceFaults source) ∧
    (∃ distances nextNode, (m.run fuel source).2 = { m with distances, nextNode }) ∧
    ∀ texts, (m.run fuel source).2.answers texts = m.answers texts := by
  obtain ⟨rejected, advances⟩ := run_faulty m fuel faulty
  obtain ⟨P, lines, twin⟩ := reachable.orderly
  exact ⟨rejected, ⟨_, _, advances.same.symm⟩,
    (twin.advance advances (Advances.refl m)).answers lines⟩

/-- The walk records a distance for `a` before it finds that there is nothing to return from. -/
theorem rejected_without_trace_of_return :
    let m := ((Machine.start [] .unlimited fun _ => 0).run 9 "var b = true;").2
    let source := "\x7b var a = b; a = false; \x7d return;"
    let texts := [(9, "print b;"), (9, "\x7b var a = false; print a; \x7d")]
    m.distances[2]? = none ∧ (m.run 9 source).2.distances[2]? = some 0 ∧
    (m.run 9 source).1 = .rejected (sourceFaults source) ∧
    (m.run 9 source).2.answers texts = m.answers texts := by
  intro m source texts
  have reachable : m.Reachable := .run (.start [] .unlimited fun _ => 0) 9 "var b = true;"
  have faulty : sourceFaults source ≠ [] := by decide +kernel
  obtain ⟨rejected, -, same⟩ := rejected_without_trace reachable 9 faulty
  exact ⟨by decide +kernel, by decide +kernel, rejected, same texts⟩

end Lox
