import Lox.Fault
import Lox.Store
import Lox.Stream

/-!
# The machine

The state of a session and the steps that change it. A computation ends with a value, with an
error of the program or of a stream, or because its fuel ran out; the state is there in each case.
-/

namespace Lox

structure Machine where
  store : Store
  env : Env
  /-- How many scopes out a node's name is bound; a node that is missing names a global. -/
  distances : Std.TreeMap NodeId Nat
  input : List UInt8
  sink : Sink
  /-- The readings of the clock, in the order in which they are taken. -/
  clock : Nat → Float
  ticks : Nat
  nextIdentity : Identity
  /-- The identity of the next node that a parse makes. -/
  nextNode : NodeId

/-- Why a computation has no value. -/
inductive Halt
  | error (e : RunError)
  /-- The bound on calls and laps was too small. -/
  | outOfFuel

abbrev Eval := EStateM Halt Machine

def globalFrame : FrameId := 0

def globalEnv : Env := [globalFrame]

def fail {α : Type} (line : Nat) (cause : RuntimeFault) : Eval α :=
  throw (.error (.program line cause))

def orFail {α : Type} (line : Nat) (cause : RuntimeFault) : Option α → Eval α
  | some a => return a
  | none => fail line cause

namespace Machine

def mapStore (m : Machine) (f : Store → Store) : Machine := { m with store := f m.store }

def withStore {α : Type} (m : Machine) (f : Store → α × Store) : α × Machine :=
  let (a, store) := f m.store
  (a, { m with store })

end Machine

/-- An identity that no other callable has. -/
def freshIdentity : Eval Identity :=
  modifyGet fun m => (m.nextIdentity, { m with nextIdentity := m.nextIdentity + 1 })

def childEnv (env : Env) : Eval Env := modifyGet (·.withStore (·.child env))

def defineIn (env : Env) (name : String) (v : Value) : Eval Unit :=
  modify (·.mapStore (·.define env name v))

def define (name : String) (v : Value) : Eval Unit := do defineIn (← get).env name v

/-- Runs with other scopes in reach; afterwards the former ones are back, however it ends. -/
def within {α : Type} (env : Env) (x : Eval α) : Eval α := fun m =>
  let former := m.env
  match x { m with env } with
  | .ok a m => .ok a { m with env := former }
  | .error e m => .error e { m with env := former }

def printLine (text : String) : Eval Unit := do
  let fits ← modifyGet fun m =>
    let (fits, sink) := m.sink.write (text ++ "\n").toUTF8.data
    (fits, { m with sink })
  if !fits then throw (.error (.stream .sinkFull))

def Machine.valueAt? (m : Machine) (id : NodeId) (name : String) : Option Value :=
  match m.distances[id]? with
  | some distance => m.store.getAt? m.env distance name
  | none => m.store.get? globalEnv name

def Machine.ownerOf? (m : Machine) (id : NodeId) (name : String) : Option FrameId :=
  match m.distances[id]? with
  | some distance => m.store.ownerAt? m.env distance name
  | none => m.store.owner? globalEnv name

def lookUp (id : NodeId) (name : Token) : Eval Value := do
  orFail name.line (.undefinedVariable name.lexeme) ((← get).valueAt? id name.lexeme)

/-- Changes the value of the name at a node, or stops with an error where it is bound to none. -/
def assignName (id : NodeId) (name : Token) (v : Value) : Eval Unit := do
  match (← get).ownerOf? id name.lexeme with
  | some frame => modify (·.mapStore (·.put frame name.lexeme v))
  | none => fail name.line (.undefinedVariable name.lexeme)

end Lox
