import Lox.Proofs.Run.Hooks
import Lox.Session

/-!
# Runs with leaps

The evaluator with jumps that carry their target (`hooks`). A `break` leaps to the end of one loop
of one call and a `return` to the end of one call. Whatever is not the target lets the leap pass, be
it a loop, a call or an expression, so that a leap that was aimed wrong would come out at the top.
-/

namespace Lox.Leap

open EStateM (Result)

/-- Where a statement stands: how many calls are around it, and how many loops of the innermost one. -/
structure Spot where
  call : Nat
  loop : Nat
  deriving DecidableEq

/-- In one more loop. -/
def Spot.deeper (here : Spot) : Spot := ⟨here.call, here.loop + 1⟩

/-- Why a computation has no value. -/
inductive Exit
  | halt (e : Halt)
  /-- To the end of the loop that stands there; outside all loops there is none. -/
  | break (target : Spot)
  | return (call : Nat) (v : Value)

abbrev Run := EStateM Exit Machine

abbrev Call := Callable → List Value → Token → Run Value

/-- A result without leaps. -/
def plain {α : Type} : Result Halt Machine α → Result Exit Machine α
  | .ok a m => .ok a m
  | .error e m => .error (.halt e) m

def lift {α : Type} (x : Eval α) : Run α := fun m => plain (x m)

/-- Runs with other scopes in reach; afterwards the former ones are back, however it ends. -/
def within {α : Type} (env : Env) (x : Run α) : Run α := fun m =>
  let former := m.env
  match x { m with env } with
  | .ok a m => .ok a { m with env := former }
  | .error e m => .error e { m with env := former }

/-- Runs the body of a loop and tells whether the loop goes on. A leap to the end of this loop ends
it, and any other leap passes. -/
def lap (here : Spot) (body : Run Unit) : Run Bool := fun m =>
  match body m with
  | .ok _ m => .ok true m
  | .error (.break target) m =>
    if target = here then .ok false m else .error (.break target) m
  | .error e m => .error e m

/-- Repeats the body while the condition holds, for at most so many laps. -/
def loop (here : Spot) (condition : Run Value) (body : Run Unit) : Nat → Run Unit
  | 0 => throw (.halt .outOfFuel)
  | laps + 1 => do
    if (← condition).isTruthy then
      if ← lap here body then loop here condition body laps else return ()
    else return ()

/-- Runs the body of a call. A leap to the end of this call ends it, and any other leap passes. -/
def callBody (number : Nat) (body : Run Unit) : Run Flow := fun m =>
  match body m with
  | .ok _ m => .ok .normal m
  | .error (.return call v) m =>
    if call = number then .ok (.return v) m else .error (.return call v) m
  | .error e m => .error e m

/-- The evaluator with leaps, where functions are called inside so many calls. What a statement
comes to depends on where it stands. -/
def hooks (number : Nat) : Hooks Exit Machine (Spot → Run Unit) where
  lift := lift
  reached _ _ x := x
  openFrame _ env := lift (childEnv env)
  after x next here := do next (← x) here
  within env s here := within env (s here)
  normal _ := return ()
  breaks here := throw (.break here)
  returns v here := throw (.return here.call v)
  andThen s t here := do
    s here
    t here
  loop condition body laps here := loop here.deeper condition (body here.deeper) laps
  body s := callBody number (s ⟨number, 0⟩)

abbrev execute := (hooks 0).execute

/-- A call inside `around` others. -/
def invoke (around : Nat) : Nat → Call
  | 0 => fun _ _ _ => throw (.halt .outOfFuel)
  | fuel + 1 =>
    let inside := hooks (around + 1)
    inside.apply (inside.executeAll (invoke (around + 1) fuel) fuel)

/-- Runs statements one after the other, outside all calls and loops. -/
def runAll (fuel : Nat) : List Stmt → Run Unit
  | [] => return ()
  | s :: ss => do
    execute (invoke 0 fuel) fuel s ⟨0, 0⟩
    runAll fuel ss

end Lox.Leap
