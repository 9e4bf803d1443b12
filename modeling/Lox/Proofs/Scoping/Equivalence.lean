import Lox.Proofs.Run.Erasure
import Lox.Proofs.Scoping.Session

/-!
# Lexical scoping, end to end

A program that is accepted comes to the same as in the reference run, which knows nothing of
distances and frames: the same outcome and the same output (`run_lexical`).
-/

namespace Lox.Scoping

open EStateM (Result)

section Outcomes

variable {fuel : Nat} {program : List Stmt} {m : Machine} {s : Lexical.State} {W : World}
  {env : Env} {head : Option FrameId} {P : World → Unit → Unit → Prop}
  {r : Result Halt Watched.State Unit}

/-- Statements that agree come to the same outcome and output; a flush fails in both runs or in
neither. -/
theorem outcome_same (ran : Watched.forget r = runAll fuel program m)
    (h : Agree head W env P r (Lexical.runAll fuel .top program s)) :
    (Outcome.ofResult (thenFlush (runAll fuel program) m)).1 = (s.runProgram fuel program).1 ∧
      (Outcome.ofResult (thenFlush (runAll fuel program) m)).2.sink =
        (s.runProgram fuel program).2.machine.sink := by
  unfold thenFlush Lexical.State.runProgram Lexical.thenFlush
  rw [← ran]
  generalize Lexical.runAll fuel .top program s = t at h ⊢
  cases h with
  | ok _ related _ _ =>
    have sink := related.shared.sink
    simp only [Watched.forget]
    rw [sink]
    split <;> exact ⟨rfl, sink⟩
  | @error _ e _ _ _ related _ =>
    have sink := related.shared.sink
    cases e with
    | outOfFuel => exact ⟨rfl, sink⟩
    | error e =>
      simp only [Watched.forget]
      rw [sink]
      split <;> exact ⟨rfl, sink⟩

end Outcomes

theorem run_accepted (m : Machine) (fuel : Nat) {source : String} {program : List Stmt}
    (read : (compile source m.nextNode).result = .ok program)
    (clean : (Binding.program program).faults = []) :
    m.run fuel source = Outcome.ofResult (thenFlush (runAll fuel program)
      (({ m with nextNode := (compile source m.nextNode).nextId } : Machine).bind program).2) := by
  have accepted : (Binding.program program).faults.isEmpty = true := by
    rw [clean]
    rfl
  unfold Machine.run
  dsimp only
  rw [read]
  exact if_pos accepted

/-- For every source text that is accepted and every input, with the clock as an oracle: running it
by distances and frames comes to the same outcome and the same output as running it with lexical
scoping. -/
theorem run_lexical (fuel : Nat) {source : String} {program : List Stmt} (input : List UInt8)
    (sink : Sink) (clock : Nat → Float) (read : (compile source 0).result = .ok program)
    (clean : (Binding.program program).faults = []) :
    ((Machine.start input sink clock).run fuel source).1 =
        ((Lexical.State.start input sink clock).runProgram fuel program).1 ∧
      ((Machine.start input sink clock).run fuel source).2.sink =
        ((Lexical.State.start input sink clock).runProgram fuel program).2.machine.sink := by
  have agree := program_agree (related_start input sink clock) rfl (compile_nextId_le source 0)
    (compile_good read) clean fuel
  rw [run_accepted (Machine.start input sink clock) fuel read clean]
  exact outcome_same (Watched.runAll_erases fuel program _) agree

/-- A function sees the variable that was there when it was declared, not the one that comes later
in the same block. -/
theorem run_lexical_shadowed :
    ∃ program,
      (compile "var a = true; \x7b fun show() \x7b print a; \x7d var a = false; show(); \x7d" 0).result =
        .ok program ∧
      (Binding.program program).faults = [] ∧
      ((Machine.start [] .unlimited fun _ => 0).run 9
          "var a = true; \x7b fun show() \x7b print a; \x7d var a = false; show(); \x7d").1 =
        ((Lexical.State.start [] .unlimited fun _ => 0).runProgram 9 program).1 ∧
      ((Machine.start [] .unlimited fun _ => 0).run 9
          "var a = true; \x7b fun show() \x7b print a; \x7d var a = false; show(); \x7d").2.sink =
        ((Lexical.State.start [] .unlimited fun _ => 0).runProgram 9 program).2.machine.sink := by
  have accepted : ((compile
      "var a = true; \x7b fun show() \x7b print a; \x7d var a = false; show(); \x7d"
      0).result.toOption.any fun program => (Binding.program program).faults.isEmpty) = true := by
    decide +kernel
  cases read : (compile
      "var a = true; \x7b fun show() \x7b print a; \x7d var a = false; show(); \x7d" 0).result with
  | ok program =>
    rw [read] at accepted
    have clean := List.isEmpty_iff.1 accepted
    exact ⟨program, rfl, clean, run_lexical 9 [] .unlimited (fun _ => 0) read clean⟩
  | error faults =>
    rw [read] at accepted
    cases accepted

end Lox.Scoping
