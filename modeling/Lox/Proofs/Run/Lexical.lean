import Lox.Session

/-!
# Lexical scoping

An evaluator with textbook lexical scoping, as a reference: it takes no notice of distances and
frames. A local scope is a persistent map from names to cells. A declaration adds a fresh cell to
the map for what follows it, a closure keeps the map as it is when it is made, and a name in no map
is looked up among the globals when it is used.

A cell knows its name, so a map is the list of its cells, the latest first. Values are those of
`Lox.Value`; here the environment of a closure lists cells. Objects, streams, identities and the
globals are in a machine, of which no local frame and no distance is used.
-/

namespace Lox.Lexical

open EStateM (Result)

abbrev CellId := Nat

/-- The place of one declared name. It is unset until the declaration gives it a value. -/
structure Cell where
  name : String
  value : Option Value

abbrev Names := List CellId

structure State where
  machine : Machine
  cells : Array Cell

abbrev Exec := EStateM Halt State

/-- A computation that concerns no local name. -/
def lift {α : Type} (x : Eval α) : Exec α := fun s =>
  match x s.machine with
  | .ok a machine => .ok a { s with machine }
  | .error e machine => .error e { s with machine }

/-! ### Names -/

namespace State

def find? (s : State) (names : Names) (name : String) : Option CellId :=
  names.find? fun c => (s.cells[c]?).any (·.name == name)

def valueOf? (s : State) (c : CellId) : Option Value := (s.cells[c]?).bind Cell.value

/-- The value of a name: the one in its cell, or else the global one. -/
def get? (s : State) (names : Names) (name : String) : Option Value :=
  match s.find? names name with
  | some c => s.valueOf? c
  | none => s.machine.store.get? globalEnv name

def fill (s : State) (c : CellId) (v : Value) : State :=
  { s with cells := s.cells.modify c fun cell => { cell with value := some v } }

end State

def newCell (name : String) (value : Option Value) : Exec CellId :=
  modifyGet fun s => (s.cells.size, { s with cells := s.cells.push ⟨name, value⟩ })

def lookUp (names : Names) (name : Token) : Exec Value := do
  let s ← get
  lift (orFail name.line (.undefinedVariable name.lexeme) (s.get? names name.lexeme))

/-- Changes the value of a name. Neither an unset cell nor a missing global can be changed. -/
def assignName (names : Names) (name : Token) (v : Value) : Exec Unit := do
  let s ← get
  match s.find? names name.lexeme with
  | some c =>
    if (s.valueOf? c).isSome then modify (·.fill c v)
    else lift (fail name.line (.undefinedVariable name.lexeme))
  | none =>
    match s.machine.store.owner? globalEnv name.lexeme with
    | some frame => lift (modify (·.mapStore (·.put frame name.lexeme v)))
    | none => lift (fail name.line (.undefinedVariable name.lexeme))

/-- Where a statement stands: at top level, or in a local scope. -/
structure Scope where
  isLocal : Bool
  names : Names

def Scope.top : Scope := ⟨false, []⟩

/-- The scope after a declaration: a local one has a fresh cell for the name, unset so far. -/
def declare (scope : Scope) (name : String) : Exec Scope := do
  if scope.isLocal then
    let c ← newCell name none
    return { scope with names := c :: scope.names }
  else return scope

/-- Gives the name that was declared last its value. -/
def define (scope : Scope) (name : String) (v : Value) : Exec Unit :=
  match scope.isLocal, scope.names with
  | true, c :: _ => modify (·.fill c v)
  | _, _ => lift (defineIn globalEnv name v)

/-! ### Methods and properties -/

def bindMethod (c : Class) (object : ObjectId) : Method → Exec Callable
  | .declared closure => do
    let this ← newCell "this" (some (.instance c object))
    return .function (← lift freshIdentity) { closure with env := this :: closure.env }
  | .native op => return .native (← lift freshIdentity) op (some object)

def getProperty (c : Class) (object : ObjectId) (name : Token) : Exec Value := do
  match (← get).machine.store.field? object name.lexeme with
  | some v => return v
  | none =>
    let method ← lift
      (orFail name.line (.undefinedProperty name.lexeme) (c.findMethod? name.lexeme))
    return .callable (← bindMethod c object method)

/-- A method of the class that `super` denotes, bound to the instance that `this` denotes. -/
def superMethod (names : Names) (keyword method : Token) : Exec Value := do
  let s ← get
  let found ← lift (orFail keyword.line (.undefinedVariable "super") (s.get? names "super"))
  let superclass ← lift (orFail keyword.line .superclassNotClass (classOf? found))
  let (c, object) ← lift (orFail keyword.line (.undefinedVariable "this")
    ((s.get? names "this").bind instanceOf?))
  let found ← lift (orFail method.line (.undefinedProperty method.lexeme)
    (superclass.findMethod? method.lexeme))
  return .callable (← bindMethod c object found)

/-! ### Expressions -/

abbrev Call := Callable → List Value → Token → Exec Value

def callWith (call : Call) (callee : Callable) (arguments : List Value) (paren : Token) :
    Exec Value := do
  if arguments.length = callee.arity then call callee arguments paren
  else lift (fail paren.line (.wrongArity callee.arity arguments.length))

mutual

def evaluate (call : Call) (names : Names) : Expr → Exec Value
  | .literal l => return .ofLiteral l
  | .group inner => evaluate call names inner
  | .unary operator right => do
    let v ← evaluate call names right
    lift (orFault operator.line (v.applyUnary operator))
  | .binary left operator right => do
    let v ← evaluate call names left
    let w ← evaluate call names right
    lift (orFault operator.line (v.applyBinary operator w))
  | .logical left operator right => do
    let v ← evaluate call names left
    if v.decides operator then return v else evaluate call names right
  | .variable _ name => lookUp names name
  | .assign _ name value => do
    let v ← evaluate call names value
    assignName names name v
    return v
  | .call callee paren arguments => do
    match ← evaluate call names callee with
    | .callable c =>
      let vs ← evaluateAll call names arguments
      callWith call c vs paren
    | _ => lift (fail paren.line .notCallable)
  | .get object name => do
    match ← evaluate call names object with
    | .instance c o => getProperty c o name
    | _ => lift (fail name.line .noProperties)
  | .set object name value => do
    match ← evaluate call names object with
    | .instance _ o =>
      let v ← evaluate call names value
      lift (modify (·.mapStore (·.setField o name.lexeme v)))
      return v
    | _ => lift (fail name.line .noFields)
  | .this _ keyword => lookUp names keyword
  | .super _ keyword method => superMethod names keyword method

def evaluateAll (call : Call) (names : Names) : List Expr → Exec (List Value)
  | [] => return []
  | e :: es => do
    let v ← evaluate call names e
    return v :: (← evaluateAll call names es)

end

def evaluate? (call : Call) (names : Names) : Option Expr → Exec Value
  | none => return .nil
  | some e => evaluate call names e

/-! ### Statements -/

def evaluateSuperclass (call : Call) (names : Names) (name : Token) :
    Option Expr → Exec (Option Class)
  | none => return none
  | some e => do
    let v ← evaluate call names e
    some <$> lift (orFail (superclassLine name e) .superclassNotClass (classOf? v))

/-- The map that the methods of a class keep. -/
def methodNames (names : Names) : Option Class → Exec Names
  | none => return names
  | some c => return (← newCell "super" (some (.callable (.class c)))) :: names

/-- A class declaration. The superclass is looked up before the name of the class is declared. -/
def declareClass (call : Call) (scope : Scope) (name : Token) (superclass : Option Expr)
    (methods : List FunctionDecl) : Exec Scope := do
  let parent ← evaluateSuperclass call scope.names name superclass
  let scope ← declare scope name.lexeme
  define scope name.lexeme .nil
  let names ← methodNames scope.names parent
  let id ← lift freshIdentity
  define scope name.lexeme
    (.callable (.class ⟨id, name.lexeme, parent, methodTable names methods⟩))
  return scope

/-- A function declaration. The function sees its own name. -/
def declareFunction (scope : Scope) (d : FunctionDecl) : Exec Scope := do
  let scope ← declare scope d.name.lexeme
  let id ← lift freshIdentity
  define scope d.name.lexeme (.callable (.function id ⟨d, scope.names, false⟩))
  return scope

def loop (condition : Exec Value) (body : Exec Flow) : Nat → Exec Flow
  | 0 => throw .outOfFuel
  | laps + 1 => do
    if (← condition).isTruthy then
      match ← body with
      | .normal => loop condition body laps
      | .break => return .normal
      | .return v => return .return v
    else return .normal

mutual

/-- How a statement ends, and the scope that the next one stands in. -/
def execute (call : Call) (laps : Nat) (scope : Scope) : Stmt → Exec (Flow × Scope)
  | .expression e => do
    let _ ← evaluate call scope.names e
    return (.normal, scope)
  | .print e => do
    let v ← evaluate call scope.names e
    lift (printLine v.text)
    return (.normal, scope)
  | .var name initializer => do
    let scope ← declare scope name.lexeme
    let v ← evaluate? call scope.names initializer
    define scope name.lexeme v
    return (.normal, scope)
  | .block body => do
    let (flow, _) ← executeAll call laps ⟨true, scope.names⟩ body
    return (flow, scope)
  | .ite condition thenBranch none => do
    let v ← evaluate call scope.names condition
    if v.isTruthy then execute call laps scope thenBranch else return (.normal, scope)
  | .ite condition thenBranch (some elseBranch) => do
    let v ← evaluate call scope.names condition
    if v.isTruthy then execute call laps scope thenBranch else execute call laps scope elseBranch
  | .while condition body => do
    let flow ← loop (evaluate call scope.names condition)
      (Prod.fst <$> execute call laps scope body) laps
    return (flow, scope)
  | .break _ => return (.break, scope)
  | .function d => do
    let scope ← declareFunction scope d
    return (.normal, scope)
  | .return _ value => do
    let v ← evaluate? call scope.names value
    return (.return v, scope)
  | .class name superclass methods => do
    let scope ← declareClass call scope name superclass methods
    return (.normal, scope)

def executeAll (call : Call) (laps : Nat) (scope : Scope) : List Stmt → Exec (Flow × Scope)
  | [] => return (.normal, scope)
  | s :: ss => do
    match ← execute call laps scope s with
    | (.normal, scope) => executeAll call laps scope ss
    | (flow, scope) => return (flow, scope)

end

/-! ### Calls -/

/-- The map of a body: a fresh cell for every parameter, with its argument. -/
def bindParameters (names : Names) : List Token → List Value → Exec Names
  | p :: ps, v :: vs => do
    let c ← newCell p.lexeme (some v)
    bindParameters (c :: names) ps vs
  | _, _ => return names

def result (closure : Closure) (flow : Flow) : Exec Value := do
  if closure.isInitializer then
    let s ← get
    return (s.get? closure.env "this").getD .nil
  else
    match flow with
    | .return v => return v
    | _ => return .nil

def callFunction (run : Scope → List Stmt → Exec (Flow × Scope)) (closure : Closure)
    (arguments : List Value) : Exec Value := do
  let names ← bindParameters closure.env closure.declaration.params arguments
  let (flow, _) ← run ⟨true, names⟩ closure.declaration.body
  result closure flow

def callMethod (run : Scope → List Stmt → Exec (Flow × Scope)) (c : Class) (object : ObjectId)
    (method : Method) (arguments : List Value) (paren : Token) : Exec Value := do
  match ← bindMethod c object method with
  | .function _ closure => callFunction run closure arguments
  | .native _ op receiver => lift (callNative op receiver arguments paren)
  | .class _ => return .nil

def instantiate (run : Scope → List Stmt → Exec (Flow × Scope)) (c : Class)
    (arguments : List Value) (paren : Token) : Exec Value := do
  let object ← lift (modifyGet (·.withStore (·.allocate)))
  if let some method := c.findMethod? initializerName then
    let _ ← callMethod run c object method arguments paren
  return .instance c object

def apply (run : Scope → List Stmt → Exec (Flow × Scope)) : Call
  | .function _ closure, arguments, _ => callFunction run closure arguments
  | .native _ op receiver, arguments, paren => lift (callNative op receiver arguments paren)
  | .class c, arguments, paren => instantiate run c arguments paren

def invoke : Nat → Call
  | 0 => fun _ _ _ => throw .outOfFuel
  | fuel + 1 => apply (executeAll (invoke fuel) fuel)

/-! ### Programs -/

def runAll (fuel : Nat) (scope : Scope) : List Stmt → Exec Unit
  | [] => return ()
  | s :: ss => do
    let (_, scope) ← execute (invoke fuel) fuel scope s
    runAll fuel scope ss

/-- Flushes the sink after a computation, however it ended. -/
def thenFlush (x : Exec Unit) : Exec Unit := fun s =>
  match x s with
  | .ok a s => if s.machine.sink.failsFlush then .error (.error (.stream .flushFailed)) s else .ok a s
  | .error .outOfFuel s => .error .outOfFuel s
  | .error e s =>
    if s.machine.sink.failsFlush then .error (.error (.stream .flushFailed)) s else .error e s

def State.start (input : List UInt8) (sink : Sink) (clock : Nat → Float) : State :=
  ⟨.start input sink clock, #[]⟩

def State.runProgram (s : State) (fuel : Nat) (program : List Stmt) : Outcome Unit × State :=
  match thenFlush (runAll fuel .top program) s with
  | .ok a s => (.finished a, s)
  | .error (.error e) s => (.failed e, s)
  | .error .outOfFuel s => (.outOfFuel, s)

end Lox.Lexical
