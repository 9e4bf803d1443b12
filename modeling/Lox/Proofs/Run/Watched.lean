import Lox.Proofs.Run.Hooks
import Lox.Session

/-!
# Watched runs

The evaluator with a log (`hooks`). It notes every node that names a binding when the run reaches
it, with the machine as it is then, and every scope that is opened. Without the log it is the
evaluator of `Lox.Evaluation` (`session_erases`).
-/

namespace Lox.Watched

open EStateM (Result)

inductive Event
  /-- A program is about to run. -/
  | accepted (program : List Stmt)
  | opened (origin : Binding.Origin) (env : Env)
  /-- A node that names a binding is looked at. -/
  | reached (id : NodeId) (name : String) (m : Machine)

/-- A machine and what has happened so far, the latest first. -/
structure State where
  machine : Machine
  log : List Event

abbrev Watch := EStateM Halt State

abbrev Call := Callable → List Value → Token → Watch Value

/-- A computation in which nothing happens that is worth a note. -/
def lift {α : Type} (x : Eval α) : Watch α := fun w =>
  match x w.machine with
  | .ok a machine => .ok a { w with machine }
  | .error e machine => .error e { w with machine }

theorem lift_bind {α β : Type} (x : Eval α) (g : α → Eval β) :
    lift (x >>= g) = lift x >>= fun a => lift (g a) := by
  funext w
  show lift (EStateM.bind x g) w = EStateM.bind (lift x) _ w
  unfold lift EStateM.bind
  dsimp only
  cases x w.machine <;> rfl

theorem lift_get_bind {α : Type} (g : Machine → Eval α) (w : State) :
    lift (get >>= g) w = lift (g w.machine) w := rfl

def reach (id : NodeId) (name : String) : Watch Unit :=
  modify fun w => { w with log := .reached id name w.machine :: w.log }

def openFrame (origin : Binding.Origin) (env : Env) : Watch Env := do
  let inner ← lift (childEnv env)
  modify fun w => { w with log := .opened origin inner :: w.log }
  return inner

/-- Runs with other scopes in reach; afterwards the former ones are back, however it ends. -/
def within {α : Type} (env : Env) (x : Watch α) : Watch α := fun w =>
  let former := w.machine.env
  match x { w with machine := { w.machine with env } } with
  | .ok a w => .ok a { w with machine := { w.machine with env := former } }
  | .error e w => .error e { w with machine := { w.machine with env := former } }

def loop (condition : Watch Value) (body : Watch Flow) : Nat → Watch Flow
  | 0 => throw .outOfFuel
  | laps + 1 => do
    if (← condition).isTruthy then
      match ← body with
      | .normal => loop condition body laps
      | .break => return .normal
      | .return v => return .return v
    else return .normal

/-- The evaluator with a log. -/
def hooks : Hooks Halt State (Watch Flow) where
  lift := lift
  reached id name x := do
    reach id name
    x
  openFrame := openFrame
  after x next := x >>= next
  within := within
  normal := return .normal
  breaks := return .break
  returns v := return .return v
  andThen x y := do
    match ← x with
    | .normal => y
    | flow => return flow
  loop := loop
  body x := x

abbrev lookUp := hooks.lookUp

abbrev assignName := hooks.assignName

abbrev bindMethod := hooks.bindMethod

abbrev getProperty := hooks.getProperty

abbrev superMethod := hooks.superMethod

abbrev callWith := hooks.callWith

abbrev evaluate := hooks.evaluate

abbrev evaluateAll := hooks.evaluateAll

abbrev evaluate? := hooks.evaluate?

abbrev evaluateSuperclass := hooks.evaluateSuperclass

abbrev methodEnv := hooks.methodEnv

abbrev declareClass := hooks.declareClass

abbrev execute := hooks.execute

abbrev executeAll := hooks.executeAll

abbrev callFunction := hooks.callFunction

abbrev callMethod := hooks.callMethod

abbrev instantiate := hooks.instantiate

abbrev apply := hooks.apply

def invoke : Nat → Call
  | 0 => fun _ _ _ => throw .outOfFuel
  | fuel + 1 => apply (executeAll (invoke fuel) fuel)

/-! ### Sessions -/

def runAll (fuel : Nat) : List Stmt → Watch Unit
  | [] => return ()
  | s :: ss => do
    let _ ← execute (invoke fuel) fuel s
    runAll fuel ss

def after {α : Type} : Result Halt State α → State
  | .ok _ w => w
  | .error _ w => w

namespace State

def start (input : List UInt8) (sink : Sink) (clock : Nat → Float) : State :=
  ⟨.start input sink clock, []⟩

/-- Runs a program that has been read, if the walk over it finds no fault. -/
def runProgram (w : State) (fuel : Nat) (program : List Stmt) : State :=
  let (faults, machine) := w.machine.bind program
  if faults.isEmpty then after (runAll fuel program ⟨machine, .accepted program :: w.log⟩)
  else { w with machine }

def run (w : State) (fuel : Nat) (source : String) : State :=
  let parsed := compile source w.machine.nextNode
  let w := { w with machine := { w.machine with nextNode := parsed.nextId } }
  match parsed.result with
  | .ok program => w.runProgram fuel program
  | .error _ => w

/-- Runs source texts one after the other, each with its fuel. -/
def session (w : State) (texts : List (Nat × String)) : State :=
  texts.foldl (fun w text => w.run text.1 text.2) w

end State

end Lox.Watched
