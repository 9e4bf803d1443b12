import Lox.Proofs.Run.Invariance
import Lox.Proofs.Session.Reachable

/-!
# Well-formed machines of sessions

The machine of a session is well formed between any two texts (`Machine.Reachable.upright`).
-/

namespace Lox

open EStateM (Result)

/-! ### The start -/

theorem upright_empty : Store.empty.Upright where
  bindings found := by simp [Store.getHere?, Store.empty] at found
  fields found := by simp [Store.field?, Store.empty] at found
  elements mem := by simp [Store.slots, Store.empty] at mem

/-- Classes whose methods all are supplied. -/
theorem upright_supplied (s : Store) (id : Identity) (name : String) {methods : List (String × Method)}
    (natives : ∀ entry ∈ methods, ∃ op, entry.2 = .native op) :
    Class.Upright s ⟨id, name, none, methods⟩ := by
  refine List.forall_mem_singleton.2 fun entry mem => ?_
  obtain ⟨op, same⟩ := natives entry mem
  rw [same]
  trivial

theorem upright_startStore : Machine.startStore.Upright := by
  have bare : (Store.empty.child []).2.allocate.2.Upright := (upright_empty.child []).allocate
  have clock := bare.put (v := .callable (.native 0 .clock none)) nofun globalFrame "clock"
  have input := clock.put (v := .instance Native.inputClass 0)
    ⟨upright_supplied _ _ _ (by simp), Nat.zero_lt_one⟩ globalFrame "input"
  exact input.put (v := .callable (.class Native.listClass)) (upright_supplied _ _ _ (by simp))
    globalFrame "List"

theorem upright_start (input : List UInt8) (sink : Sink) (clock : Nat → Float) :
    (Machine.start input sink clock).Upright :=
  ⟨upright_startStore, rfl, List.forall_mem_singleton.2 Nat.zero_lt_one⟩

/-! ### Texts -/

theorem Stood.upright {α : Type} {m : Machine} {Q : Store → α → Prop} {r : Result Halt Machine α}
    (h : Stood m Q r) : (final r).Upright := by
  cases h with
  | ok upright | error upright => exact upright

theorem Stays.upright {α : Type} {m : Machine} {x : Eval α} {Q : Store → α → Prop}
    (h : Stays m.store x Q) (start : m.Upright) : (final (x m)).Upright :=
  (h m (.refl _) start).upright

namespace Machine.Upright

variable {m : Machine} (h : m.Upright)

include h

theorem runProgram (fuel : Nat) (program : List Stmt) : (m.runProgram fuel program).2.Upright := by
  have bound : (m.bind program).2.Upright := ⟨h.store, h.env⟩
  unfold Machine.runProgram
  dsimp only
  split
  · rw [ofResult_thenFlush]
    exact (runAll_stays fuel program).upright bound
  · exact bound

theorem run (fuel : Nat) (source : String) : (m.run fuel source).2.Upright := by
  have read : ({ m with nextNode := (compile source m.nextNode).nextId } : Machine).Upright :=
    ⟨h.store, h.env⟩
  unfold Machine.run
  dsimp only
  cases (compile source m.nextNode).result with
  | ok program => exact read.runProgram fuel program
  | error faults => exact read

theorem evaluate (fuel : Nat) (source : String) : (m.evaluate fuel source).2.Upright := by
  have read : ({ m with nextNode := (compileExpression source m.nextNode).nextId } : Machine).Upright :=
    ⟨h.store, h.env⟩
  unfold Machine.evaluate
  dsimp only
  cases (compileExpression source m.nextNode).result with
  | ok e =>
    show (Outcome.ofResult _).2.Upright
    rw [ofResult_final]
    exact (evaluate_stays (invoke_stays fuel) e).upright read
  | error faults => exact read

theorem readLine : m.readLine.2.Upright := ⟨h.store, h.env⟩

end Machine.Upright

theorem Machine.Reachable.upright {m : Machine} (h : m.Reachable) : m.Upright := by
  induction h with
  | start input sink clock => exact upright_start input sink clock
  | run _ fuel source ih => exact ih.run fuel source
  | evaluate _ fuel source ih => exact ih.evaluate fuel source
  | readLine _ ih => exact ih.readLine
  | elsewhere _ _ ih => exact ⟨ih.store, ih.env⟩

end Lox
