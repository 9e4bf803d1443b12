import Lox.Native

/-!
# Running programs

Expressions and statements are run by recursion on the tree. A call leaves the tree, so what it
does is a parameter; `invoke` ties the knot and bounds the depth of calls and the laps of each
loop by its fuel. Operands, callees and arguments are evaluated from left to right.
-/

namespace Lox

/-- How a statement ends: by going on, by leaving the innermost loop or by leaving the call. -/
inductive Flow
  | normal
  | break
  | return (v : Value)

/-- A call with its arguments; the token is where it reports its faults. -/
abbrev Invoke := Callable → List Value → Token → Eval Value

/-! ### Operators -/

namespace Value

def applyUnary (operator : Token) (v : Value) : Except RuntimeFault Value :=
  match operator.kind, v with
  | .symbol .minus, .number x => .ok (.number (-x))
  | .symbol .minus, _ => .error .operandNotNumber
  | .symbol .bang, v => .ok (.bool !v.isTruthy)
  | _, _ => .error (.invalidUnaryOperator operator.lexeme)

def applyNumeric (operator : Token) (x y : Float) : Except RuntimeFault Value :=
  match operator.kind with
  | .symbol .minus => .ok (.number (x - y))
  | .symbol .star => .ok (.number (x * y))
  | .symbol .slash => .ok (.number (x / y))
  | .symbol .greater => .ok (.bool (decide (y < x)))
  | .symbol .greaterEqual => .ok (.bool (decide (y ≤ x)))
  | .symbol .less => .ok (.bool (decide (x < y)))
  | .symbol .lessEqual => .ok (.bool (decide (x ≤ y)))
  | _ => .error (.invalidBinaryOperator operator.lexeme)

def add : Value → Value → Except RuntimeFault Value
  | number x, number y => .ok (number (x + y))
  | string s, string t => .ok (string (s ++ t))
  | _, _ => .error .operandsNotAddable

/-- A binary operator on two values. Only equality takes values of any type. -/
def applyBinary (operator : Token) (v w : Value) : Except RuntimeFault Value :=
  match operator.kind with
  | .symbol .equalEqual => .ok (.bool (v.equals w))
  | .symbol .bangEqual => .ok (.bool !v.equals w)
  | .symbol .plus => v.add w
  | _ =>
    match v, w with
    | .number x, .number y => applyNumeric operator x y
    | _, _ => .error .operandsNotNumbers

def decides (operator : Token) (left : Value) : Bool :=
  if operator.kind = .keyword .or then left.isTruthy else !left.isTruthy

end Value

def orFault {α : Type} (line : Nat) : Except RuntimeFault α → Eval α
  | .ok a => return a
  | .error cause => fail line cause

/-! ### Methods and properties -/

/-- A method with its receiver fixed: a declared one gets a scope that binds `this`. -/
def bindMethod (c : Class) (object : ObjectId) : Method → Eval Callable
  | .declared closure => do
    let env ← childEnv closure.env
    defineIn env "this" (.instance c object)
    return .function (← freshIdentity) { closure with env }
  | .native op => return .native (← freshIdentity) op (some object)

def getProperty (c : Class) (object : ObjectId) (name : Token) : Eval Value := do
  match (← get).store.field? object name.lexeme with
  | some v => return v
  | none =>
    let method ← orFail name.line (.undefinedProperty name.lexeme) (c.findMethod? name.lexeme)
    return .callable (← bindMethod c object method)

def classOf? : Value → Option Class
  | .callable (.class c) => some c
  | _ => none

def instanceOf? : Value → Option (Class × ObjectId)
  | .instance c object => some (c, object)
  | _ => none

/-- A method of the superclass, bound to the instance that `this` denotes. The scope of `this` lies
just inside the scope of `super`. -/
def superMethod (id : NodeId) (keyword method : Token) : Eval Value := do
  let m ← get
  let distance ← orFail keyword.line .superOutsideClass (m.distances[id]?)
  let found ← orFail keyword.line (.undefinedVariable keyword.lexeme)
    (m.store.getAt? m.env distance keyword.lexeme)
  let superclass ← orFail keyword.line .superclassNotClass (classOf? found)
  let (c, object) ← orFail keyword.line (.undefinedVariable "this")
    ((m.store.getAt? m.env (distance - 1) "this").bind instanceOf?)
  let found ← orFail method.line (.undefinedProperty method.lexeme)
    (superclass.findMethod? method.lexeme)
  return .callable (← bindMethod c object found)

/-! ### Expressions -/

def callWith (call : Invoke) (callee : Callable) (arguments : List Value) (paren : Token) :
    Eval Value := do
  if arguments.length = callee.arity then call callee arguments paren
  else fail paren.line (.wrongArity callee.arity arguments.length)

mutual

def evaluate (call : Invoke) : Expr → Eval Value
  | .literal l => return .ofLiteral l
  | .group inner => evaluate call inner
  | .unary operator right => do
    let v ← evaluate call right
    orFault operator.line (v.applyUnary operator)
  | .binary left operator right => do
    let v ← evaluate call left
    let w ← evaluate call right
    orFault operator.line (v.applyBinary operator w)
  | .logical left operator right => do
    let v ← evaluate call left
    if v.decides operator then return v else evaluate call right
  | .variable id name => lookUp id name
  | .assign id name value => do
    let v ← evaluate call value
    assignName id name v
    return v
  | .call callee paren arguments => do
    match ← evaluate call callee with
    | .callable c =>
      let vs ← evaluateAll call arguments
      callWith call c vs paren
    | _ => fail paren.line .notCallable
  | .get object name => do
    match ← evaluate call object with
    | .instance c o => getProperty c o name
    | _ => fail name.line .noProperties
  | .set object name value => do
    match ← evaluate call object with
    | .instance _ o =>
      let v ← evaluate call value
      modify (·.mapStore (·.setField o name.lexeme v))
      return v
    | _ => fail name.line .noFields
  | .this id keyword => lookUp id keyword
  | .super id keyword method => superMethod id keyword method

def evaluateAll (call : Invoke) : List Expr → Eval (List Value)
  | [] => return []
  | e :: es => do
    let v ← evaluate call e
    return v :: (← evaluateAll call es)

end

def evaluate? (call : Invoke) : Option Expr → Eval Value
  | none => return .nil
  | some e => evaluate call e

/-! ### Statements -/

def declareFunction (d : FunctionDecl) : Eval Unit := do
  let id ← freshIdentity
  define d.name.lexeme (.callable (.function id ⟨d, (← get).env, false⟩))

/-- The line where a superclass that is no class is reported. -/
def superclassLine (name : Token) : Expr → Nat
  | .variable _ superclass => superclass.line
  | _ => name.line

def evaluateSuperclass (call : Invoke) (name : Token) : Option Expr → Eval (Option Class)
  | none => return none
  | some e => do
    let v ← evaluate call e
    some <$> orFail (superclassLine name e) .superclassNotClass (classOf? v)

def methodEnv (superclass : Option Class) : Eval Env := do
  let env := (← get).env
  match superclass with
  | none => return env
  | some c =>
    let inner ← childEnv env
    defineIn inner "super" (.callable (.class c))
    return inner

/-- The methods of a class by name, the latest declaration first. -/
def methodTable (env : Env) (methods : List FunctionDecl) : List (String × Method) :=
  (methods.map fun d =>
    (d.name.lexeme, Method.declared ⟨d, env, d.name.lexeme == initializerName⟩)).reverse

/-- Binds the name of a class in the nearest scope that has it, which is the innermost one. -/
def assignClass (name : Token) (c : Class) : Eval Unit := do
  let m ← get
  match m.store.owner? m.env name.lexeme with
  | some frame => modify (·.mapStore (·.put frame name.lexeme (.callable (.class c))))
  | none => fail name.line (.undefinedVariable name.lexeme)

/-- A class declaration. Its name is bound before its methods are made, so that they see it. -/
def declareClass (call : Invoke) (name : Token) (superclass : Option Expr)
    (methods : List FunctionDecl) : Eval Unit := do
  let parent ← evaluateSuperclass call name superclass
  define name.lexeme .nil
  let env ← methodEnv parent
  assignClass name ⟨← freshIdentity, name.lexeme, parent, methodTable env methods⟩

/-- Repeats the body while the condition holds, for at most so many laps. -/
def loop (condition : Eval Value) (body : Eval Flow) : Nat → Eval Flow
  | 0 => throw .outOfFuel
  | laps + 1 => do
    if (← condition).isTruthy then
      match ← body with
      | .normal => loop condition body laps
      | .break => return .normal
      | .return v => return .return v
    else return .normal

mutual

def execute (call : Invoke) (laps : Nat) : Stmt → Eval Flow
  | .expression e => do
    let _ ← evaluate call e
    return .normal
  | .print e => do
    let v ← evaluate call e
    printLine v.text
    return .normal
  | .var name initializer => do
    let v ← evaluate? call initializer
    define name.lexeme v
    return .normal
  | .block body => do
    let env ← childEnv (← get).env
    within env (executeAll call laps body)
  | .ite condition thenBranch none => do
    let v ← evaluate call condition
    if v.isTruthy then execute call laps thenBranch else return .normal
  | .ite condition thenBranch (some elseBranch) => do
    let v ← evaluate call condition
    if v.isTruthy then execute call laps thenBranch else execute call laps elseBranch
  | .while condition body => loop (evaluate call condition) (execute call laps body) laps
  | .break _ => return .break
  | .function d => do
    declareFunction d
    return .normal
  | .return _ value => do
    let v ← evaluate? call value
    return .return v
  | .class name superclass methods => do
    declareClass call name superclass methods
    return .normal

/-- Statements in order, up to the first that does not go on. -/
def executeAll (call : Invoke) (laps : Nat) : List Stmt → Eval Flow
  | [] => return .normal
  | s :: ss => do
    match ← execute call laps s with
    | .normal => executeAll call laps ss
    | flow => return flow

end

/-! ### Calls -/

/-- Binds parameters to arguments in the innermost scope of `env`. -/
def bindParameters (env : Env) : List Token → List Value → Eval Unit
  | p :: ps, v :: vs => do
    defineIn env p.lexeme v
    bindParameters env ps vs
  | _, _ => return ()

/-- What a call yields once the body has ended. An initializer yields the receiver that its
environment binds. -/
def result (closure : Closure) (flow : Flow) : Eval Value := do
  if closure.isInitializer then
    let m ← get
    return (m.store.getAt? closure.env 0 "this").getD .nil
  else
    match flow with
    | .return v => return v
    | _ => return .nil

def callFunction (run : List Stmt → Eval Flow) (closure : Closure) (arguments : List Value) :
    Eval Value := do
  let env ← childEnv closure.env
  bindParameters env closure.declaration.params arguments
  let flow ← within env (run closure.declaration.body)
  result closure flow

/-- Runs a supplied routine; it reports on the line of the call. -/
def callNative (op : Native) (receiver : Option ObjectId) (arguments : List Value)
    (paren : Token) : Eval Value := fun m =>
  match op.run receiver arguments m with
  | .ok v m => .ok v m
  | .error cause m => .error (.error (.program paren.line (.native cause))) m

/-- Runs a method with its receiver fixed. -/
def callMethod (run : List Stmt → Eval Flow) (c : Class) (object : ObjectId) (method : Method)
    (arguments : List Value) (paren : Token) : Eval Value := do
  match ← bindMethod c object method with
  | .function _ closure => callFunction run closure arguments
  | .native _ op receiver => callNative op receiver arguments paren
  | .class _ => return .nil

def instantiate (run : List Stmt → Eval Flow) (c : Class) (arguments : List Value)
    (paren : Token) : Eval Value := do
  let object ← modifyGet (·.withStore (·.allocate))
  if let some method := c.findMethod? initializerName then
    let _ ← callMethod run c object method arguments paren
  return .instance c object

def apply (run : List Stmt → Eval Flow) : Invoke
  | .function _ closure, arguments, _ => callFunction run closure arguments
  | .native _ op receiver, arguments, paren => callNative op receiver arguments paren
  | .class c, arguments, paren => instantiate run c arguments paren

/-- A call inside at most `fuel` others, each loop of which has at most `fuel` laps. -/
def invoke : Nat → Invoke
  | 0 => fun _ _ _ => throw .outOfFuel
  | fuel + 1 => apply (executeAll (invoke fuel) fuel)

end Lox
