import Lox.Proofs.Binding.Site
import Lox.Evaluation

/-!
# An evaluator with hooks

The evaluator of `Lox.Evaluation` over the steps in which instrumented runs differ from it: those that
are looked at, those that fail, and how statements go together. What an instrument does at these steps
are its hooks, and its evaluator is this one with them. With the hooks that add nothing it is the
evaluator of `Lox.Evaluation` (`execute_plain`, `apply_plain`).
-/

namespace Lox

/-- What is done at the steps that an instrument may look at or change. A statement comes to an `S`. -/
structure Hooks (ε σ S : Type) where
  /-- A step that is as in a run without the instrument. -/
  lift : {α : Type} → Eval α → EStateM ε σ α
  /-- At a node that names a binding, before what is done there. -/
  reached : {α : Type} → NodeId → String → EStateM ε σ α → EStateM ε σ α
  openFrame : Binding.Origin → Env → EStateM ε σ Env
  /-- The faults that `super` is there for in programs with faults only. -/
  orTrap : {α : Type} → Nat → RuntimeFault → Option α → EStateM ε σ α :=
    fun line cause o => lift (orFail line cause o)
  orFault : Nat → Except RuntimeFault Value → EStateM ε σ Value :=
    fun line r => lift (Lox.orFault line r)
  assignClass : Token → Class → EStateM ε σ Unit := fun name c => lift (Lox.assignClass name c)
  callNative : Native → Option ObjectId → List Value → Token → EStateM ε σ Value :=
    fun op receiver arguments paren => lift (Lox.callNative op receiver arguments paren)
  /-- A computation, and the statement that its value leads to. -/
  after : {α : Type} → EStateM ε σ α → (α → S) → S
  within : Env → S → S
  normal : S
  breaks : S
  returns : Value → S
  /-- The second statement follows if the first goes on. -/
  andThen : S → S → S
  /-- At most so many laps. -/
  loop : EStateM ε σ Value → S → Nat → S
  /-- What the body of a call comes to. -/
  body : S → EStateM ε σ Flow

namespace Hooks

variable {ε σ S : Type}

abbrev Call (ε σ : Type) := Callable → List Value → Token → EStateM ε σ Value

variable (H : Hooks ε σ S)

/-! ### Names and methods -/

def lookUp (id : NodeId) (name : Token) : EStateM ε σ Value :=
  H.reached id name.lexeme (H.lift (Lox.lookUp id name))

def assignName (id : NodeId) (name : Token) (v : Value) : EStateM ε σ Unit :=
  H.reached id name.lexeme (H.lift (Lox.assignName id name v))

def bindMethod (c : Class) (object : ObjectId) : Method → EStateM ε σ Callable
  | .declared closure => do
    let env ← H.openFrame (.this closure.declaration) closure.env
    H.lift (defineIn env "this" (.instance c object))
    return .function (← H.lift freshIdentity) { closure with env }
  | .native op => return .native (← H.lift freshIdentity) op (some object)

def getProperty (c : Class) (object : ObjectId) (name : Token) : EStateM ε σ Value := do
  match (← H.lift get).store.field? object name.lexeme with
  | some v => return v
  | none =>
    let method ← H.lift
      (orFail name.line (.undefinedProperty name.lexeme) (c.findMethod? name.lexeme))
    return .callable (← H.bindMethod c object method)

def superMethod (id : NodeId) (keyword method : Token) : EStateM ε σ Value :=
  H.reached id keyword.lexeme do
    let m ← H.lift get
    let distance ← H.orTrap keyword.line .superOutsideClass (m.distances[id]?)
    let found ← H.orTrap keyword.line (.undefinedVariable keyword.lexeme)
      (m.store.getAt? m.env distance keyword.lexeme)
    let superclass ← H.orTrap keyword.line .superclassNotClass (classOf? found)
    let (c, object) ← H.orTrap keyword.line (.undefinedVariable "this")
      ((m.store.getAt? m.env (distance - 1) "this").bind instanceOf?)
    let found ← H.lift (orFail method.line (.undefinedProperty method.lexeme)
      (superclass.findMethod? method.lexeme))
    return .callable (← H.bindMethod c object found)

/-! ### Expressions -/

def callWith (call : Call ε σ) (callee : Callable) (arguments : List Value) (paren : Token) :
    EStateM ε σ Value := do
  if arguments.length = callee.arity then call callee arguments paren
  else H.lift (fail paren.line (.wrongArity callee.arity arguments.length))

mutual

def evaluate (call : Call ε σ) : Expr → EStateM ε σ Value
  | .literal l => return .ofLiteral l
  | .group inner => evaluate call inner
  | .unary operator right => do
    let v ← evaluate call right
    H.orFault operator.line (v.applyUnary operator)
  | .binary left operator right => do
    let v ← evaluate call left
    let w ← evaluate call right
    H.orFault operator.line (v.applyBinary operator w)
  | .logical left operator right => do
    let v ← evaluate call left
    if v.decides operator then return v else evaluate call right
  | .variable id name => H.lookUp id name
  | .assign id name value => H.reached id name.lexeme do
    let v ← evaluate call value
    H.assignName id name v
    return v
  | .call callee paren arguments => do
    match ← evaluate call callee with
    | .callable c =>
      let vs ← evaluateAll call arguments
      H.callWith call c vs paren
    | _ => H.lift (fail paren.line .notCallable)
  | .get object name => do
    match ← evaluate call object with
    | .instance c o => H.getProperty c o name
    | _ => H.lift (fail name.line .noProperties)
  | .set object name value => do
    match ← evaluate call object with
    | .instance _ o =>
      let v ← evaluate call value
      H.lift (modify (·.mapStore (·.setField o name.lexeme v)))
      return v
    | _ => H.lift (fail name.line .noFields)
  | .this id keyword => H.lookUp id keyword
  | .super id keyword method => H.superMethod id keyword method

def evaluateAll (call : Call ε σ) : List Expr → EStateM ε σ (List Value)
  | [] => return []
  | e :: es => do
    let v ← evaluate call e
    return v :: (← evaluateAll call es)

end

def evaluate? (call : Call ε σ) : Option Expr → EStateM ε σ Value
  | none => return .nil
  | some e => H.evaluate call e

/-! ### Statements -/

def evaluateSuperclass (call : Call ε σ) (name : Token) : Option Expr → EStateM ε σ (Option Class)
  | none => return none
  | some e => do
    let v ← H.evaluate call e
    some <$> H.lift (orFail (superclassLine name e) .superclassNotClass (classOf? v))

def methodEnv (methods : List FunctionDecl) (superclass : Option Class) : EStateM ε σ Env := do
  let env := (← H.lift get).env
  match superclass with
  | none => return env
  | some c =>
    let inner ← H.openFrame (.super methods) env
    H.lift (defineIn inner "super" (.callable (.class c)))
    return inner

def declareClass (call : Call ε σ) (name : Token) (superclass : Option Expr)
    (methods : List FunctionDecl) : EStateM ε σ Unit := do
  let parent ← H.evaluateSuperclass call name superclass
  H.lift (define name.lexeme .nil)
  let env ← H.methodEnv methods parent
  let id ← H.lift freshIdentity
  H.assignClass name ⟨id, name.lexeme, parent, methodTable env methods⟩

mutual

def execute (call : Call ε σ) (laps : Nat) : Stmt → S
  | .expression e => H.after (H.evaluate call e) fun _ => H.normal
  | .print e => H.after (H.evaluate call e) fun v =>
    H.after (H.lift (printLine v.text)) fun _ => H.normal
  | .var name initializer => H.after (H.evaluate? call initializer) fun v =>
    H.after (H.lift (define name.lexeme v)) fun _ => H.normal
  | .block body => H.after (H.lift get) fun m =>
    H.after (H.openFrame (.block body) m.env) fun env => H.within env (executeAll call laps body)
  | .ite condition thenBranch none => H.after (H.evaluate call condition) fun v =>
    if v.isTruthy then execute call laps thenBranch else H.normal
  | .ite condition thenBranch (some elseBranch) => H.after (H.evaluate call condition) fun v =>
    if v.isTruthy then execute call laps thenBranch else execute call laps elseBranch
  | .while condition body => H.loop (H.evaluate call condition) (execute call laps body) laps
  | .break _ => H.breaks
  | .function d => H.after (H.lift (declareFunction d)) fun _ => H.normal
  | .return _ value => H.after (H.evaluate? call value) H.returns
  | .class name superclass methods =>
    H.after (H.declareClass call name superclass methods) fun _ => H.normal

def executeAll (call : Call ε σ) (laps : Nat) : List Stmt → S
  | [] => H.normal
  | s :: ss => H.andThen (execute call laps s) (executeAll call laps ss)

end

/-! ### Calls -/

def callFunction (run : List Stmt → S) (closure : Closure) (arguments : List Value) :
    EStateM ε σ Value := do
  let env ← H.openFrame (.call closure.declaration) closure.env
  H.lift (bindParameters env closure.declaration.params arguments)
  let flow ← H.body (H.within env (run closure.declaration.body))
  H.lift (result closure flow)

def callMethod (run : List Stmt → S) (c : Class) (object : ObjectId) (method : Method)
    (arguments : List Value) (paren : Token) : EStateM ε σ Value := do
  match ← H.bindMethod c object method with
  | .function _ closure => H.callFunction run closure arguments
  | .native _ op receiver => H.callNative op receiver arguments paren
  | .class _ => return .nil

def instantiate (run : List Stmt → S) (c : Class) (arguments : List Value) (paren : Token) :
    EStateM ε σ Value := do
  let object ← H.lift (modifyGet (·.withStore (·.allocate)))
  if let some method := c.findMethod? initializerName then
    let _ ← H.callMethod run c object method arguments paren
  return .instance c object

def apply (run : List Stmt → S) : Call ε σ
  | .function _ closure, arguments, _ => H.callFunction run closure arguments
  | .native _ op receiver, arguments, paren => H.callNative op receiver arguments paren
  | .class c, arguments, paren => H.instantiate run c arguments paren

/-! ### Without instruments -/

/-- No step is looked at, and every fault is thrown. -/
def plain : Hooks Halt Machine (Eval Flow) where
  lift x := x
  reached _ _ x := x
  openFrame _ env := childEnv env
  after x next := x >>= next
  within := Lox.within
  normal := return .normal
  breaks := return .break
  returns v := return .return v
  andThen x y := do
    match ← x with
    | .normal => y
    | flow => return flow
  loop := Lox.loop
  body x := x

theorem bind_eq {α β : Type} {x y : Eval α} {f g : α → Eval β} (first : x = y)
    (next : ∀ a, f a = g a) : (x >>= f) = (y >>= g) := by
  rw [first, funext next]

section Plain

variable (call : Invoke)

mutual

theorem evaluate_plain : (e : Expr) → plain.evaluate call e = Lox.evaluate call e
  | .literal _ => rfl
  | .group inner => evaluate_plain inner
  | .unary _ right => bind_eq (evaluate_plain right) fun _ => rfl
  | .binary left _ right => bind_eq (evaluate_plain left) fun _ =>
    bind_eq (evaluate_plain right) fun _ => rfl
  | .logical left _ right => bind_eq (evaluate_plain left) fun _ =>
    congrArg (ite _ _) (evaluate_plain right)
  | .variable _ _ => rfl
  | .assign _ _ value => bind_eq (evaluate_plain value) fun _ => rfl
  | .call callee _ arguments => bind_eq (evaluate_plain callee) fun v => by
    cases v with
    | callable c => exact bind_eq (evaluateAll_plain arguments) fun _ => rfl
    | nil | bool | number | string | «instance» => rfl
  | .get object _ => bind_eq (evaluate_plain object) fun v => by cases v <;> rfl
  | .set object _ value => bind_eq (evaluate_plain object) fun v => by
    cases v with
    | «instance» c o => exact bind_eq (evaluate_plain value) fun _ => rfl
    | nil | bool | number | string | callable => rfl
  | .this _ _ => rfl
  | .super _ _ _ => rfl

theorem evaluateAll_plain : (es : List Expr) → plain.evaluateAll call es = Lox.evaluateAll call es
  | [] => rfl
  | e :: es => bind_eq (evaluate_plain e) fun _ => bind_eq (evaluateAll_plain es) fun _ => rfl

end

theorem evaluate?_plain (o : Option Expr) : plain.evaluate? call o = Lox.evaluate? call o := by
  cases o with
  | none => rfl
  | some e => exact evaluate_plain call e

theorem declareClass_plain (name : Token) (superclass : Option Expr) (methods : List FunctionDecl) :
    plain.declareClass call name superclass methods =
      Lox.declareClass call name superclass methods := by
  refine bind_eq ?_ fun _ => rfl
  cases superclass with
  | none => rfl
  | some e => exact bind_eq (evaluate_plain call e) fun _ => rfl

variable (laps : Nat)

mutual

theorem execute_plain : (s : Stmt) → plain.execute call laps s = Lox.execute call laps s
  | .expression e => bind_eq (evaluate_plain call e) fun _ => rfl
  | .print e => bind_eq (evaluate_plain call e) fun _ => rfl
  | .var _ initializer => bind_eq (evaluate?_plain call initializer) fun _ => rfl
  | .block body => bind_eq rfl fun _ => bind_eq rfl fun env =>
    congrArg (Lox.within env) (executeAll_plain body)
  | .ite condition thenBranch none => bind_eq (evaluate_plain call condition) fun _ =>
    congrArg (ite _ · _) (execute_plain thenBranch)
  | .ite condition thenBranch (some elseBranch) => bind_eq (evaluate_plain call condition) fun _ =>
    congr (congrArg (ite _) (execute_plain thenBranch)) (execute_plain elseBranch)
  | .while condition body =>
    congrFun (congr (congrArg Lox.loop (evaluate_plain call condition)) (execute_plain body)) laps
  | .break _ => rfl
  | .function _ => rfl
  | .return _ value => bind_eq (evaluate?_plain call value) fun _ => rfl
  | .class name superclass methods =>
    bind_eq (declareClass_plain call name superclass methods) fun _ => rfl

theorem executeAll_plain : (ss : List Stmt) →
    plain.executeAll call laps ss = Lox.executeAll call laps ss
  | [] => rfl
  | s :: ss => bind_eq (execute_plain s) fun flow => by
    cases flow with
    | normal => exact executeAll_plain ss
    | «break» | «return» => rfl

end

end Plain

theorem apply_plain (run : List Stmt → Eval Flow) : plain.apply run = Lox.apply run := by
  funext callee arguments paren
  cases callee with
  | function id closure => rfl
  | native id op receiver => rfl
  | «class» c =>
    refine bind_eq rfl fun object => ?_
    cases c.findMethod? initializerName with
    | none => rfl
    | some method => exact bind_eq (bind_eq rfl fun bound => by cases bound <;> rfl) fun _ => rfl

end Hooks

end Lox
