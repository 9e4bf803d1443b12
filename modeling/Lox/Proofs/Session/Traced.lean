import Lox.Proofs.Run.Trace
import Lox.Proofs.Session.Jumps

/-!
# Texts with their moments

A text runs as a program, moment by moment, or it is rejected and has no moments.
-/

namespace Lox

variable {m : Machine} {source : String}

theorem run_unread {faults : List Diagnostic}
    (unread : (compile source m.nextNode).result = .error faults) (fuel : Nat) :
    m.run fuel source = (.rejected faults, { m with nextNode := (compile source m.nextNode).nextId }) ∧
      m.trace fuel source = [] := by
  unfold Machine.run Machine.trace
  dsimp only
  rw [unread]
  exact ⟨rfl, rfl⟩

theorem run_loaded {program : List Stmt}
    (read : (compile source m.nextNode).result = .ok program)
    (clean : (Binding.program program).faults = []) (fuel : Nat) :
    m.run fuel source =
        Outcome.ofResult (thenFlush (runAll fuel program) (m.loaded source program)) ∧
      m.trace fuel source = Trace.runAll fuel program (m.loaded source program) := by
  unfold Machine.run Machine.trace
  dsimp only
  rw [read]
  exact ⟨if_pos (List.isEmpty_iff.2 clean), if_pos (List.isEmpty_iff.2 clean)⟩

theorem run_misbound {program : List Stmt}
    (read : (compile source m.nextNode).result = .ok program)
    (faulty : (Binding.program program).faults ≠ []) (fuel : Nat) :
    m.run fuel source = (.rejected (Binding.program program).faults, m.loaded source program) ∧
      m.trace fuel source = [] := by
  unfold Machine.run Machine.trace
  dsimp only
  rw [read]
  have some : ¬ (Binding.program program).faults.isEmpty = true := mt List.isEmpty_iff.1 faulty
  exact ⟨if_neg some, if_neg some⟩

end Lox
