import Lox.Session

/-!
# Traces

What a run does, moment by moment: each statement, expression and call as it begins and each text as
it is printed, with the machine as it is then. A trace follows the evaluator construct by construct
and asks it how each part ends, so that it stops where the evaluator does.
-/

namespace Lox

/-- What a run is about to do. -/
inductive Act
  | statement (s : Stmt)
  | expression (e : Expr)
  /-- To enter the body of a function or method. -/
  | function (closure : Closure) (arguments : List Value)
  | native (op : Native) (receiver : Option ObjectId) (arguments : List Value)
  | construct (c : Class) (arguments : List Value)
  /-- To hand a text to the sink, and a newline after it. -/
  | output (text : String)

structure Moment where
  event : Act
  machine : Machine

/-- The moments of a computation, from the machine that it begins at. -/
def Trace := Machine → List Moment

namespace Trace

/-- The computation has no parts that are worth a note. -/
def silent : Trace := fun _ => []

def mark (event : Act) (t : Trace) : Trace := fun m => ⟨event, m⟩ :: t m

/-- The moments of a computation and, if it ends with a value, those of what comes next. -/
def bind {α : Type} (t : Trace) (x : Eval α) (next : α → Trace) : Trace := fun m =>
  t m ++ match x m with
    | .ok a n => next a n
    | .error _ _ => []

def within (env : Env) (t : Trace) : Trace := fun m => t { m with env }

theorem bind_silent {α : Type} (t : Trace) (x : Eval α) : (t.bind x fun _ => silent) = t := by
  funext m
  unfold bind
  cases x m <;> exact List.append_nil (t m)

section Ends

variable {α : Type} {t : Trace} {x : Eval α} {next : α → Trace} {m n : Machine}

theorem bind_of_ok {a : α} (ended : x m = .ok a n) : t.bind x next m = t m ++ next a n := by
  rw [bind, ended]

theorem bind_of_error {e : Halt} (ended : x m = .error e n) : t.bind x next m = t m := by
  rw [bind, ended, List.append_nil]

end Ends

/-- The moments of a call with its arguments. -/
abbrev OfCalls := Callable → List Value → Token → Trace

section Trees

variable (call : Invoke) (calls : OfCalls)

/-! ### Expressions -/

def callWith (callee : Callable) (arguments : List Value) (paren : Token) : Trace :=
  if arguments.length = callee.arity then calls callee arguments paren else silent

mutual

def evaluate (e : Expr) : Trace :=
  mark (.expression e) <|
    match e with
    | .literal _ => silent
    | .group inner => evaluate inner
    | .unary _ right => evaluate right
    | .binary left _ right => (evaluate left).bind (Lox.evaluate call left) fun _ => evaluate right
    | .logical left operator right => (evaluate left).bind (Lox.evaluate call left) fun v =>
      if v.decides operator then silent else evaluate right
    | .variable _ _ => silent
    | .assign _ _ value => evaluate value
    | .call callee paren arguments => (evaluate callee).bind (Lox.evaluate call callee) fun
      | .callable c => (evaluateAll arguments).bind (Lox.evaluateAll call arguments) fun vs =>
        callWith calls c vs paren
      | _ => silent
    | .get object _ => evaluate object
    | .set object _ value => (evaluate object).bind (Lox.evaluate call object) fun
      | .instance _ _ => evaluate value
      | _ => silent
    | .this _ _ => silent
    | .super _ _ _ => silent

def evaluateAll : List Expr → Trace
  | [] => silent
  | e :: es => (evaluate e).bind (Lox.evaluate call e) fun _ => evaluateAll es

end

def evaluate? : Option Expr → Trace
  | none => silent
  | some e => evaluate call calls e

/-! ### Statements -/

def loop (condition : Eval Value) (body : Eval Flow) (test lap : Trace) : Nat → Trace
  | 0 => silent
  | laps + 1 => test.bind condition fun v =>
    if v.isTruthy then
      lap.bind body fun
        | .normal => loop condition body test lap laps
        | _ => silent
    else silent

/-- The scope of a block. -/
def blockEnv : Eval Env := do childEnv (← get).env

mutual

def execute (laps : Nat) (s : Stmt) : Trace :=
  mark (.statement s) <|
    match s with
    | .expression e => evaluate call calls e
    | .print e => (evaluate call calls e).bind (Lox.evaluate call e) fun v =>
      mark (.output v.text) silent
    | .var _ initializer => evaluate? call calls initializer
    | .block body => silent.bind blockEnv fun env => (executeAll laps body).within env
    | .ite condition thenBranch none =>
      (evaluate call calls condition).bind (Lox.evaluate call condition) fun v =>
        if v.isTruthy then execute laps thenBranch else silent
    | .ite condition thenBranch (some elseBranch) =>
      (evaluate call calls condition).bind (Lox.evaluate call condition) fun v =>
        if v.isTruthy then execute laps thenBranch else execute laps elseBranch
    | .while condition body =>
      loop (Lox.evaluate call condition) (Lox.execute call laps body)
        (evaluate call calls condition) (execute laps body) laps
    | .break _ => silent
    | .function _ => silent
    | .return _ value => evaluate? call calls value
    | .class _ superclass _ => evaluate? call calls superclass

def executeAll (laps : Nat) : List Stmt → Trace
  | [] => silent
  | s :: ss => (execute laps s).bind (Lox.execute call laps s) fun
    | .normal => executeAll laps ss
    | _ => silent

end

end Trees

/-! ### Calls -/

section Calls

variable (run : List Stmt → Eval Flow) (runs : List Stmt → Trace)

def callFunction (closure : Closure) (arguments : List Value) : Trace :=
  mark (.function closure arguments) <|
    silent.bind (childEnv closure.env) fun env =>
    silent.bind (bindParameters env closure.declaration.params arguments) fun _ =>
    (runs closure.declaration.body).within env

def callNative (op : Native) (receiver : Option ObjectId) (arguments : List Value) : Trace :=
  mark (.native op receiver arguments) silent

def callMethod (c : Class) (object : ObjectId) (method : Method) (arguments : List Value) : Trace :=
  silent.bind (bindMethod c object method) fun
    | .function _ closure => callFunction runs closure arguments
    | .native _ op receiver => callNative op receiver arguments
    | .class _ => silent

def instantiate (c : Class) (arguments : List Value) : Trace :=
  mark (.construct c arguments) <|
    silent.bind (modifyGet (·.withStore (·.allocate))) fun object =>
      match c.findMethod? initializerName with
      | some method => callMethod runs c object method arguments
      | none => silent

def apply : OfCalls
  | .function _ closure, arguments, _ => callFunction runs closure arguments
  | .native _ op receiver, arguments, _ => callNative op receiver arguments
  | .class c, arguments, _ => instantiate runs c arguments

end Calls

def invoke : Nat → OfCalls
  | 0 => fun _ _ _ => silent
  | fuel + 1 => apply (executeAll (Lox.invoke fuel) (invoke fuel) fuel)

def runAll (fuel : Nat) : List Stmt → Trace
  | [] => silent
  | s :: ss =>
    (execute (Lox.invoke fuel) (invoke fuel) fuel s).bind
      (Lox.execute (Lox.invoke fuel) fuel s) fun _ => runAll fuel ss

end Trace

/-- The moments of running a source text: none if it is rejected. -/
def Machine.trace (m : Machine) (fuel : Nat) (source : String) : List Moment :=
  let parsed := compile source m.nextNode
  match parsed.result with
  | .ok program =>
    let (faults, n) := { m with nextNode := parsed.nextId }.bind program
    if faults.isEmpty then Trace.runAll fuel program n else []
  | .error _ => []

/-- The moments of evaluating a source text that is one expression: none if it is rejected. -/
def Machine.traceExpression (m : Machine) (fuel : Nat) (source : String) : List Moment :=
  let parsed := compileExpression source m.nextNode
  match parsed.result with
  | .ok e => Trace.evaluate (invoke fuel) (Trace.invoke fuel) e { m with nextNode := parsed.nextId }
  | .error _ => []

end Lox
