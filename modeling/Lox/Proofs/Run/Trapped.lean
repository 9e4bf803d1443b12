import Lox.Proofs.Run.Hooks
import Lox.Session

/-!
# Runs with traps

The evaluator with a trap in place of each fault that is there for programs with faults only
(`hooks`): an operator that is none, a `super` without its class or its instance, a class whose name
is not bound, and a routine of lists that misses its list. What traps end a run with is a parameter.
With the faults themselves it is the evaluator of `Lox.Evaluation` (`run_plain`).
-/

namespace Lox.Trapped

/-- What is thrown in place of a fault on a line. -/
abbrev Trap := Nat → RuntimeFault → Halt

/-- The faults themselves. -/
def plain : Trap := fun line cause => .error (.program line cause)

section Evaluation

variable (trap : Trap)

def orTrap {α : Type} (line : Nat) (cause : RuntimeFault) : Option α → Eval α
  | some a => return a
  | none => throw (trap line cause)

def orFault {α : Type} (line : Nat) : Except RuntimeFault α → Eval α
  | .ok a => return a
  | .error (.invalidUnaryOperator lexeme) => throw (trap line (.invalidUnaryOperator lexeme))
  | .error (.invalidBinaryOperator lexeme) => throw (trap line (.invalidBinaryOperator lexeme))
  | .error cause => fail line cause

def assignClass (name : Token) (c : Class) : Eval Unit := do
  let m ← get
  match m.store.owner? m.env name.lexeme with
  | some frame => modify (·.mapStore (·.put frame name.lexeme (.callable (.class c))))
  | none => throw (trap name.line (.undefinedVariable name.lexeme))

def callNative (op : Native) (receiver : Option ObjectId) (arguments : List Value)
    (paren : Token) : Eval Value := fun m =>
  match op.run receiver arguments m with
  | .ok v m => .ok v m
  | .error .noReceiver m => .error (trap paren.line (.native .noReceiver)) m
  | .error cause m => .error (.error (.program paren.line (.native cause))) m

/-- The evaluator with traps. Nothing is looked at. -/
def hooks : Hooks Halt Machine (Eval Flow) :=
  { Hooks.plain with
    orTrap := orTrap trap
    orFault := orFault trap
    assignClass := assignClass trap
    callNative := callNative trap }

abbrev superMethod := (hooks trap).superMethod

abbrev evaluate := (hooks trap).evaluate

abbrev evaluateAll := (hooks trap).evaluateAll

abbrev evaluate? := (hooks trap).evaluate?

abbrev evaluateSuperclass := (hooks trap).evaluateSuperclass

abbrev declareClass := (hooks trap).declareClass

abbrev execute := (hooks trap).execute

abbrev executeAll := (hooks trap).executeAll

abbrev callMethod := (hooks trap).callMethod

abbrev apply := (hooks trap).apply

def invoke : Nat → Invoke
  | 0 => fun _ _ _ => throw .outOfFuel
  | fuel + 1 => apply trap (executeAll trap (invoke fuel) fuel)

/-! ### Source texts -/

def runAll (fuel : Nat) : List Stmt → Eval Unit
  | [] => return ()
  | s :: ss => do
    let _ ← execute trap (invoke trap fuel) fuel s
    runAll fuel ss

def runProgram (m : Machine) (fuel : Nat) (program : List Stmt) : Outcome Unit × Machine :=
  let (faults, m) := m.bind program
  if faults.isEmpty then Outcome.ofResult (thenFlush (runAll trap fuel program) m)
  else (.rejected faults, m)

def run (m : Machine) (fuel : Nat) (source : String) : Outcome Unit × Machine :=
  let parsed := compile source m.nextNode
  let m := { m with nextNode := parsed.nextId }
  match parsed.result with
  | .ok program => runProgram trap m fuel program
  | .error faults => (.rejected faults, m)

end Evaluation

/-! ### Without traps -/

theorem orTrap_plain {α : Type} (line : Nat) (cause : RuntimeFault) (o : Option α) :
    orTrap plain line cause o = orFail line cause o := by
  cases o <;> rfl

theorem orFault_plain {α : Type} (line : Nat) (r : Except RuntimeFault α) :
    orFault plain line r = Lox.orFault line r := by
  cases r with
  | ok a => rfl
  | error cause => cases cause <;> rfl

theorem callNative_plain (op : Native) (receiver : Option ObjectId) (arguments : List Value)
    (paren : Token) :
    callNative plain op receiver arguments paren = Lox.callNative op receiver arguments paren := by
  funext m
  unfold callNative Lox.callNative
  cases op.run receiver arguments m with
  | ok v n => rfl
  | error cause n => cases cause <;> rfl

theorem hooks_plain : hooks plain = Hooks.plain := by
  have traps : @orTrap plain = @orFail := by
    funext α line cause o
    exact orTrap_plain line cause o
  have faults : orFault plain = @Lox.orFault Value := by
    funext line r
    exact orFault_plain line r
  have natives : callNative plain = Lox.callNative := by
    funext op receiver arguments paren
    exact callNative_plain op receiver arguments paren
  unfold hooks
  rw [traps, faults, natives]
  rfl

theorem invoke_plain (fuel : Nat) : invoke plain fuel = Lox.invoke fuel := by
  induction fuel with
  | zero => rfl
  | succ fuel ih =>
    rw [invoke, Lox.invoke, ih, apply, executeAll, hooks_plain, Hooks.apply_plain,
      funext (Hooks.executeAll_plain (Lox.invoke fuel) fuel)]

theorem runAll_plain (fuel : Nat) (ss : List Stmt) : runAll plain fuel ss = Lox.runAll fuel ss := by
  induction ss with
  | nil => rfl
  | cons s ss ih =>
    rw [runAll, Lox.runAll, invoke_plain, execute, hooks_plain, Hooks.execute_plain, ih]

theorem runProgram_plain (m : Machine) (fuel : Nat) (program : List Stmt) :
    runProgram plain m fuel program = m.runProgram fuel program := by
  unfold runProgram Machine.runProgram
  rw [runAll_plain]

/-- With the faults themselves, a text comes to what it comes to. -/
theorem run_plain (m : Machine) (fuel : Nat) (source : String) :
    run plain m fuel source = m.run fuel source := by
  unfold run Machine.run
  dsimp only
  cases (compile source m.nextNode).result with
  | ok program => exact runProgram_plain _ fuel program
  | error faults => rfl

end Lox.Trapped
