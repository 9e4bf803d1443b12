import Lox.Proofs.Run.Agreement
import Lox.Proofs.Run.Watched

/-!
# Watching changes nothing

Every watched computation comes to what the evaluator comes to, and leaves the same machine.
-/

namespace Lox.Watched

open EStateM (Result)

/-- A result without the log. -/
def forget {α : Type} : Result Halt State α → Result Halt Machine α
  | .ok a w => .ok a w.machine
  | .error e w => .error e w.machine

def Erases {α : Type} (x : Watch α) (y : Eval α) : Prop := ∀ w, forget (x w) = y w.machine

namespace Erases

variable {α β : Type}

theorem pure (a : α) : Erases (Pure.pure a) (Pure.pure a) := fun _ => rfl

theorem throw (e : Halt) : Erases (MonadExcept.throw e : Watch α) (MonadExcept.throw e) :=
  fun _ => rfl

theorem lift (y : Eval α) : Erases (Watched.lift y) y := by
  intro w
  unfold Watched.lift
  cases y w.machine <;> rfl

theorem bind {x : Watch α} {y : Eval α} {f : α → Watch β} {g : α → Eval β} (first : Erases x y)
    (next : ∀ a, Erases (f a) (g a)) : Erases (x >>= f) (y >>= g) := by
  intro w
  have start := first w
  show forget (EStateM.bind x f w) = EStateM.bind y g w.machine
  unfold EStateM.bind
  rw [← start]
  cases x w with
  | ok a w' => exact next a w'
  | error e w' => rfl

theorem openFrame (origin : Binding.Origin) (env : Env) :
    Erases (Watched.openFrame origin env) (childEnv env) := fun _ => rfl

theorem within {x : Watch α} {y : Eval α} (env : Env) (h : Erases x y) :
    Erases (Watched.within env x) (Lox.within env y) := by
  intro w
  have inner := h { w with machine := { w.machine with env } }
  unfold Watched.within Lox.within
  rw [← inner]
  cases x { w with machine := { w.machine with env } } <;> rfl

end Erases

theorem loop_erases {condition : Watch Value} {condition' : Eval Value} {body : Watch Flow}
    {body' : Eval Flow} (test : Erases condition condition') (lap : Erases body body')
    (laps : Nat) : Erases (loop condition body laps) (Lox.loop condition' body' laps) := by
  induction laps with
  | zero => exact Erases.throw _
  | succ laps ih =>
    refine test.bind fun v => Hooks.rel_ite (lap.bind fun flow => ?_) (Erases.pure _)
    cases flow with
    | normal => exact ih
    | «break» => exact Erases.pure _
    | «return» v => exact Erases.pure _

theorem andThen_erases {x y : Watch Flow} {x' y' : Eval Flow} (first : Erases x x')
    (next : Erases y y') : Erases (hooks.andThen x y) (Hooks.plain.andThen x' y') :=
  first.bind fun flow => by
    cases flow with
    | normal => exact next
    | «break» | «return» => exact Erases.pure _

/-- A note at any step is no change. -/
theorem hooks_erase : Hooks.Agree hooks Hooks.plain @Erases Erases where
  pure := Erases.pure
  bind := Erases.bind
  lift := Erases.lift
  reached id name _ _ h w := h { w with log := .reached id name w.machine :: w.log }
  openFrame := Erases.openFrame
  orTrap _ _ _ := Erases.lift _
  orFault _ _ := Erases.lift _
  assignClass _ _ := Erases.lift _
  callNative _ _ _ _ := Erases.lift _
  after := Erases.bind
  within env _ _ h := h.within env
  normal := Erases.pure _
  breaks := Erases.pure _
  returns _ := Erases.pure _
  andThen := andThen_erases
  loop laps test lap := loop_erases test lap laps

/-! ### The evaluator -/

/-- Watched calls are calls. -/
abbrev CallErases (call : Call) (call' : Invoke) : Prop := Hooks.CallsAgree @Erases call call'

section Statements

variable {call : Call} {call' : Invoke} (h : CallErases call call')

include h

theorem execute_erases (laps : Nat) (s : Stmt) :
    Erases (execute call laps s) (Lox.execute call' laps s) :=
  Hooks.execute_plain call' laps s ▸ hooks_erase.execute h laps s

theorem executeAll_erases (laps : Nat) (ss : List Stmt) :
    Erases (executeAll call laps ss) (Lox.executeAll call' laps ss) :=
  Hooks.executeAll_plain call' laps ss ▸ hooks_erase.executeAll h laps ss

end Statements

theorem apply_erases {run : List Stmt → Watch Flow} {run' : List Stmt → Eval Flow}
    (h : ∀ body, Erases (run body) (run' body)) : CallErases (apply run) (Lox.apply run') :=
  Hooks.apply_plain run' ▸ hooks_erase.apply fun closure =>
    hooks_erase.callFunction fun env => (h closure.declaration.body).within env

theorem invoke_erases (fuel : Nat) : CallErases (invoke fuel) (Lox.invoke fuel) := by
  induction fuel with
  | zero => exact fun _ _ _ => Erases.throw _
  | succ fuel ih => exact apply_erases fun body => executeAll_erases ih fuel body

/-! ### Sessions -/

theorem runAll_erases (fuel : Nat) (body : List Stmt) :
    Erases (runAll fuel body) (Lox.runAll fuel body) := by
  induction body with
  | nil => exact Erases.pure _
  | cons s ss ih => exact (execute_erases (invoke_erases fuel) fuel s).bind fun _ => ih

theorem after_machine {x : Watch Unit} {y : Eval Unit} (h : Erases x y) (w : State) :
    (after (x w)).machine = (Outcome.ofResult (thenFlush y w.machine)).2 := by
  have erased := h w
  unfold thenFlush
  rw [← erased]
  cases x w with
  | ok a w' =>
    simp only [forget, after]
    split <;> rfl
  | error e w' =>
    cases e with
    | error e =>
      simp only [forget, after]
      split <;> rfl
    | outOfFuel => rfl

theorem runProgram_machine (w : State) (fuel : Nat) (program : List Stmt) :
    (w.runProgram fuel program).machine = (w.machine.runProgram fuel program).2 := by
  unfold State.runProgram Machine.runProgram
  dsimp only
  split
  · exact after_machine (runAll_erases fuel program) _
  · rfl

theorem run_machine (w : State) (fuel : Nat) (source : String) :
    (w.run fuel source).machine = (w.machine.run fuel source).2 := by
  cases parsed : (compile source w.machine.nextNode).result with
  | error faults => simp only [State.run, Machine.run, parsed]
  | ok program =>
    simp only [State.run, Machine.run, parsed]
    exact runProgram_machine _ fuel program

end Lox.Watched

namespace Lox

/-- Runs source texts one after the other, each with its fuel. -/
def Machine.session (m : Machine) (texts : List (Nat × String)) : Machine :=
  texts.foldl (fun m text => (m.run text.1 text.2).2) m

/-- A watched session leaves the machine that the session leaves. -/
theorem Watched.session_erases (w : Watched.State) (texts : List (Nat × String)) :
    (w.session texts).machine = w.machine.session texts := by
  induction texts generalizing w with
  | nil => rfl
  | cons text texts ih =>
    have step := ih (w.run text.1 text.2)
    rw [Watched.run_machine] at step
    exact step

end Lox
