import Lox.Proofs.Run.Erasure
import Lox.Proofs.Run.Likewise
import Lox.Proofs.Run.Stable

/-!
# What a run gives back

However a computation ends, the scopes in reach are the ones that it started with
(`scopes_restored`); nor does it touch the distances of nodes.
-/

namespace Lox

open EStateM (Result)

def Keeps {α : Type} (x : Eval α) : Prop := ∀ m, Steady m (final (x m))

theorem run_steady (op : Native) (receiver : Option ObjectId) (arguments : List Value)
    (m : Machine) : Steady m (final (op.run receiver arguments m)) := by
  have same : List.Forall₂ (LikeValue .equality) arguments arguments :=
    List.forall₂_same.2 fun v _ => LikeValue.refl v
  have done := run_likewise op receiver same m m (LikeState.refl m)
  cases ended : op.run receiver arguments m with
  | ok v n =>
    rw [ended] at done
    cases done with
    | ok _ aside _ _ => exact aside.toSteady
  | error cause n =>
    rw [ended] at done
    cases done with
    | error _ aside _ => exact aside.toSteady

instance : Stable Steady where
  refl := Steady.refl
  trans := Steady.trans
  within inner := ⟨rfl, inner.distances, inner.nextNode⟩
  identity _ := ⟨rfl, rfl, rfl⟩
  print _ _ := ⟨rfl, rfl, rfl⟩
  child _ _ := ⟨rfl, rfl, rfl⟩
  put _ _ _ _ := ⟨rfl, rfl, rfl⟩
  allocate _ := ⟨rfl, rfl, rfl⟩
  setField _ _ _ _ := ⟨rfl, rfl, rfl⟩
  native := run_steady

/-! ### Sessions -/

theorem ofResult_thenFlush (x : Eval Unit) (m : Machine) :
    (Outcome.ofResult (thenFlush x m)).2 = final (x m) := by
  unfold thenFlush
  cases x m with
  | ok a n =>
    dsimp only
    split <;> rfl
  | error e n =>
    cases e with
    | outOfFuel => rfl
    | error e =>
      dsimp only
      split <;> rfl

theorem runProgram_env (m : Machine) (fuel : Nat) (program : List Stmt) :
    (m.runProgram fuel program).2.env = m.env := by
  unfold Machine.runProgram
  dsimp only
  split
  · rw [ofResult_thenFlush]
    exact (runAll_follows (S := Steady) fuel program _).env
  · rfl

theorem run_env (m : Machine) (fuel : Nat) (source : String) :
    (m.run fuel source).2.env = m.env := by
  unfold Machine.run
  dsimp only
  cases (compile source m.nextNode).result with
  | ok program => exact runProgram_env _ fuel program
  | error faults => rfl

theorem session_env (m : Machine) (texts : List (Nat × String)) : (m.session texts).env = m.env := by
  induction texts generalizing m with
  | nil => rfl
  | cons text texts ih => exact (ih _).trans (run_env m text.1 text.2)

/-- The scopes in reach are the same before and after the computation, however it ends. -/
def Restores {α : Type} (x : Eval α) : Prop := ∀ m, (final (x m)).env = m.env

theorem Keeps.restores {α : Type} {x : Eval α} (h : Keeps x) : Restores x := fun m => (h m).env

/-- Whatever is run, however deep it is nested and however it ends, the scopes in reach are the
former ones again, so that every text of a session starts in the global scope. -/
theorem scopes_restored :
    (∀ fuel e, Restores (evaluate (invoke fuel) e)) ∧
    (∀ fuel laps s, Restores (execute (invoke fuel) laps s)) ∧
    (∀ fuel laps env body, Restores (within env (executeAll (invoke fuel) laps body))) ∧
    (∀ fuel laps closure arguments,
      Restores (callFunction (executeAll (invoke fuel) laps) closure arguments)) ∧
    (∀ fuel laps c arguments paren,
      Restores (instantiate (executeAll (invoke fuel) laps) c arguments paren)) ∧
    (∀ fuel callee arguments paren, Restores (invoke fuel callee arguments paren)) ∧
    (∀ m fuel source, (Machine.run m fuel source).2.env = m.env) ∧
    ∀ input sink clock texts,
      ((Machine.start input sink clock).session texts).env = globalEnv := by
  have bodies : ∀ fuel laps body, Keeps (executeAll (invoke fuel) laps body) := fun fuel laps =>
    executeAll_follows (invoke_follows fuel) laps
  refine ⟨?_, ?_, ?_, ?_, ?_, ?_, run_env, ?_⟩
  · exact fun fuel e => Keeps.restores (evaluate_follows (invoke_follows fuel) e)
  · exact fun fuel laps s => Keeps.restores (execute_follows (invoke_follows fuel) laps s)
  · exact fun fuel laps env body => Keeps.restores (Follows.within env (bodies fuel laps body))
  · exact fun fuel laps closure arguments =>
      Keeps.restores (callFunction_follows (bodies fuel laps) closure arguments)
  · exact fun fuel laps c arguments paren =>
      Keeps.restores (instantiate_follows (bodies fuel laps) c arguments paren)
  · exact fun fuel callee arguments paren =>
      Keeps.restores (invoke_follows fuel callee arguments paren)
  · exact fun input sink clock texts => session_env _ texts

end Lox
