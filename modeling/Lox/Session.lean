import Lox.Binding
import Lox.Evaluation
import Lox.Grammar.Statement
import Lox.Token.Scan

/-!
# Sessions

A session feeds source texts to one machine, so that later ones see the globals of earlier ones. A
text with a fault in it is rejected as a whole, before anything of it runs.
-/

namespace Lox

/-- What becomes of a source text. -/
inductive Outcome (α : Type)
  | finished (a : α)
  /-- It has faults; nothing of it ran. -/
  | rejected (faults : List Diagnostic)
  /-- It ran and was cut short. -/
  | failed (e : RunError)
  /-- It ran longer than the fuel allowed. -/
  | outOfFuel

namespace Outcome

def code {α : Type} : Outcome α → Nat
  | finished _ => 0
  | rejected _ => 65
  | failed _ => 70
  | outOfFuel => 70

def summary {α : Type} : Outcome α → String
  | finished _ => ""
  | rejected faults => toString faults.length ++ " compile error(s)"
  | failed e => e.text
  | outOfFuel => "out of fuel"

/-- Everything that is wrong, a text for each fault. -/
def reports {α : Type} : Outcome α → List String
  | finished _ => []
  | rejected faults => faults.map Diagnostic.text
  | failed e => [e.text]
  | outOfFuel => ["out of fuel"]

def ofResult {α : Type} : EStateM.Result Halt Machine α → Outcome α × Machine
  | .ok a m => (finished a, m)
  | .error (.error e) m => (failed e, m)
  | .error .outOfFuel m => (outOfFuel, m)

end Outcome

/-- Reads a source text as a program. Faults of single characters come before those of the
grammar; the tokens around a faulty character are read all the same. -/
def compile (source : String) (nextId : NodeId) : Grammar.Parsed (List Stmt) :=
  let (tokens, faults) := tokenize source
  let parsed := Grammar.parse tokens nextId
  let result :=
    match parsed.result with
    | .ok program => if faults.isEmpty then .ok program else .error faults
    | .error more => .error (faults ++ more)
  { parsed with result }

/-- Reads a source text as one expression. The grammar is looked at only if every character is in
order. -/
def compileExpression (source : String) (nextId : NodeId) : Grammar.Parsed Expr :=
  let (tokens, faults) := tokenize source
  if faults.isEmpty then Grammar.parseExpression tokens nextId else ⟨.error faults, nextId⟩

/-- Runs statements one after the other. At top level nothing is left to break or return from. -/
def runAll (fuel : Nat) : List Stmt → Eval Unit
  | [] => return ()
  | s :: ss => do
    let _ ← execute (invoke fuel) fuel s
    runAll fuel ss

/-- Flushes the sink after a computation, however it ended; a failure to do so takes the place of
the error it ended with. -/
def thenFlush (x : Eval Unit) : Eval Unit := fun m =>
  match x m with
  | .ok a m => if m.sink.failsFlush then .error (.error (.stream .flushFailed)) m else .ok a m
  | .error .outOfFuel m => .error .outOfFuel m
  | .error e m => if m.sink.failsFlush then .error (.error (.stream .flushFailed)) m else .error e m

namespace Machine

/-- Looks for misplaced names and jumps, and keeps the distances of all nodes that are bound in a
scope. -/
def bind (m : Machine) (program : List Stmt) : List Diagnostic × Machine :=
  let walk := Binding.program program
  let distances :=
    walk.records.foldr (fun (id, distance) table => table.insert id distance) m.distances
  (walk.faults, { m with distances })

/-- Runs a program that has been read. -/
def runProgram (m : Machine) (fuel : Nat) (program : List Stmt) : Outcome Unit × Machine :=
  let (faults, m) := m.bind program
  if faults.isEmpty then Outcome.ofResult (thenFlush (runAll fuel program) m)
  else (.rejected faults, m)

def run (m : Machine) (fuel : Nat) (source : String) : Outcome Unit × Machine :=
  let parsed := compile source m.nextNode
  let m := { m with nextNode := parsed.nextId }
  match parsed.result with
  | .ok program => m.runProgram fuel program
  | .error faults => (.rejected faults, m)

/-- Evaluates a source text that is one expression. All its names are globals. -/
def evaluate (m : Machine) (fuel : Nat) (source : String) : Outcome Value × Machine :=
  let parsed := compileExpression source m.nextNode
  let m := { m with nextNode := parsed.nextId }
  match parsed.result with
  | .ok e => Outcome.ofResult (Lox.evaluate (invoke fuel) e m)
  | .error faults => (.rejected faults, m)

def readLine (m : Machine) : Input.Line × Machine :=
  let (line, input) := Input.readLine m.input
  (line, { m with input })

end Machine

end Lox
