import Lox.Proofs.Run.Equivariance
import Lox.Proofs.Session.Linked
import Lox.Proofs.Session.Reachable

/-!
# Identities in use

Whatever a session can lead to holds identities that were given out only, so that renaming others
changes nothing (`Machine.Reachable.supported`).
-/

namespace Lox

open EStateM (Result)

/-- All identities in the machine are below the next one. -/
def Machine.Supported (m : Machine) : Prop :=
  ∀ σ : Equiv.Perm Identity, (∀ i, i < m.nextIdentity → σ i = i) → Renamed σ m m

namespace Machine.Supported

variable {m : Machine}

/-- What does the same with other identities gives a new one to whatever it makes. -/
theorem final {α : Type} {x : Eval α} {φ : Equiv.Perm Identity → α → α} (h : m.Supported)
    (equivariant : ∀ σ, Equivariant σ x x (φ σ)) : (final (x m)).Supported := by
  intro σ fixed
  have onward := (equivariant σ).onward m
  exact ((equivariant σ).same m m (h σ fun i low => fixed i (Nat.lt_of_lt_of_le low onward))
    fun i _ high => fixed i high).final

theorem run (h : m.Supported) (fuel : Nat) (source : String) : (m.run fuel source).2.Supported := by
  unfold Machine.run
  dsimp only
  cases (compile source m.nextNode).result with
  | error faults => exact fun σ fixed => { h σ fixed with distances := fun _ => rfl }
  | ok program =>
    have bound : (({ m with nextNode := (compile source m.nextNode).nextId } : Machine).bind
        program).2.Supported := fun σ fixed => { h σ fixed with distances := fun _ => rfl }
    dsimp only
    unfold runProgram
    dsimp only
    split
    · rw [ofResult_thenFlush]
      exact bound.final fun σ => runAll_equivariant fuel program
    · exact bound

theorem evaluate (h : m.Supported) (fuel : Nat) (source : String) :
    (m.evaluate fuel source).2.Supported := by
  have read : ({ m with nextNode := (compileExpression source m.nextNode).nextId } :
      Machine).Supported := fun σ fixed => { h σ fixed with distances := fun _ => rfl }
  unfold Machine.evaluate
  dsimp only
  cases (compileExpression source m.nextNode).result with
  | error faults => exact read
  | ok e =>
    dsimp only
    rw [ofResult_final]
    exact read.final fun σ => evaluate_equivariant (invoke_equivariant fuel) e

/-- The supplied values have the first three identities. -/
theorem start (input : List UInt8) (sink : Sink) (clock : Nat → Float) :
    (Machine.start input sink clock).Supported := by
  intro σ fixed
  have kept : ∀ i, i < 3 → σ i = i := fixed
  have bare : (Store.empty.child []).2.allocate.2.All fun v => v.renamed σ = v :=
    ((Graph.all_empty _).child []).allocate
  have first := bare.put (v := .callable (.native 0 .clock none))
    (by rw [Value.renamed, Callable.renamed, kept 0 (by decide)]) globalFrame "clock"
  have second := first.put (v := .instance Native.inputClass 0)
    (by rw [Value.renamed, Native.inputClass, Class.renamed, kept 1 (by decide)])
    globalFrame "input"
  have third := second.put (v := .callable (.class Native.listClass))
    (by rw [Value.renamed, Callable.renamed, Native.listClass, Class.renamed, kept 2 (by decide)])
    globalFrame "List"
  exact ⟨Store.All.renamed third, rfl, fun _ => rfl, rfl, rfl, rfl, rfl, rfl⟩

end Machine.Supported

theorem Machine.Reachable.supported {m : Machine} (h : m.Reachable) : m.Supported := by
  induction h with
  | start input sink clock => exact .start input sink clock
  | run before fuel source ih => exact ih.run fuel source
  | evaluate before fuel source ih => exact ih.evaluate fuel source
  | readLine before ih => exact fun σ fixed => { ih σ fixed with input := rfl }
  | elsewhere before le ih => exact fun σ fixed => { ih σ fixed with distances := fun _ => rfl }

end Lox
