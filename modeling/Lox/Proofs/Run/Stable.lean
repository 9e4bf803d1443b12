import Lox.Session

/-!
# Orders of machines

A relation that holds between the machine before and the machine after each single step holds
between the machine before and the machine after all of what runs, however it ends
(`Follows`, `invoke_follows`). What calls nothing needs no more than the evaluator's own steps
(`Gradual`).
-/

namespace Lox

open EStateM (Result)

/-- The machine at the end of a computation, however it ended. -/
def final {ε α : Type} : Result ε Machine α → Machine
  | .ok _ n => n
  | .error _ n => n

/-- An order that every step of the evaluator's own goes along. -/
class Gradual (S : Machine → Machine → Prop) : Prop where
  refl : ∀ m, S m m
  trans : ∀ {m n o}, S m n → S n o → S m o
  /-- What goes on in other scopes, seen from the former ones. -/
  within : ∀ {m n env}, S { m with env } n → S m { n with env := m.env }
  identity : ∀ m, S m { m with nextIdentity := m.nextIdentity + 1 }
  print : ∀ m sink, S m { m with sink }
  child : ∀ m (env : Env), S m (m.withStore (·.child env)).2
  put : ∀ m frame name v, S m (m.mapStore (·.put frame name v))
  allocate : ∀ m, S m (m.withStore (·.allocate)).2
  setField : ∀ m object name v, S m (m.mapStore (·.setField object name v))

/-- An order that supplied routines go along, too. -/
class Stable (S : Machine → Machine → Prop) : Prop extends Gradual S where
  native : ∀ (op : Native) receiver arguments m, S m (final (op.run receiver arguments m))

/-- The machine afterwards comes after the machine before. -/
def Follows (S : Machine → Machine → Prop) {α : Type} (x : Eval α) : Prop := ∀ m, S m (final (x m))

variable {S : Machine → Machine → Prop}

section Gradual

variable [Gradual S]

namespace Follows

variable {α β : Type}

theorem pure (a : α) : Follows S (Pure.pure a : Eval α) := Gradual.refl

theorem throw (e : Halt) : Follows S (MonadExcept.throw e : Eval α) := Gradual.refl

theorem bind {x : Eval α} {f : α → Eval β} (first : Follows S x) (next : ∀ a, Follows S (f a)) :
    Follows S (x >>= f) := by
  intro m
  have start := first m
  show S m (final (EStateM.bind x f m))
  unfold EStateM.bind
  cases ended : x m with
  | ok a n =>
    rw [ended] at start
    exact Gradual.trans start (next a n)
  | error e n =>
    rw [ended] at start
    exact start

omit [Gradual S] in
theorem get {f : Machine → Eval α} (h : ∀ m, Follows S (f m)) : Follows S (MonadState.get >>= f) :=
  fun m => h m m

omit [Gradual S] in
theorem modify {f : Machine → Machine} (h : ∀ m, S m (f m)) : Follows S (modify f : Eval Unit) := h

theorem map {x : Eval α} (f : α → β) (h : Follows S x) : Follows S (f <$> x) := by
  rw [← bind_pure_comp]
  exact bind h fun a => pure (f a)

omit [Gradual S] in
theorem ite {c : Prop} [Decidable c] {x y : Eval α} (h : Follows S x) (k : Follows S y) :
    Follows S (if c then x else y) := by
  split
  · exact h
  · exact k

theorem within {x : Eval α} (env : Env) (h : Follows S x) : Follows S (Lox.within env x) := by
  intro m
  have inner := h { m with env }
  unfold Lox.within
  cases ended : x { m with env } with
  | ok a n | error e n =>
    rw [ended] at inner
    exact Gradual.within inner

end Follows

/-! ### Steps -/

theorem childEnv_follows (env : Env) : Follows S (childEnv env) := fun m => Gradual.child m env

theorem defineIn_follows (env : Env) (name : String) (v : Value) :
    Follows S (defineIn env name v) := by
  refine Follows.modify fun m => ?_
  cases env with
  | nil => exact Gradual.refl m
  | cons frame env => exact Gradual.put m frame name v

theorem define_follows (name : String) (v : Value) : Follows S (define name v) :=
  Follows.get fun m => defineIn_follows m.env name v

theorem freshIdentity_follows : Follows S freshIdentity := Gradual.identity

theorem fail_follows {α : Type} (line : Nat) (cause : RuntimeFault) :
    Follows S (fail line cause : Eval α) :=
  Follows.throw _

theorem orFail_follows {α : Type} (line : Nat) (cause : RuntimeFault) (o : Option α) :
    Follows S (orFail line cause o) := by
  cases o with
  | none => exact Follows.throw _
  | some a => exact Follows.pure a

theorem orFault_follows {α : Type} (line : Nat) (r : Except RuntimeFault α) :
    Follows S (orFault line r) := by
  cases r with
  | error cause => exact Follows.throw _
  | ok a => exact Follows.pure a

theorem printLine_follows (text : String) : Follows S (printLine text) := by
  refine Follows.bind (fun m => Gradual.print m _) fun fits => ?_
  cases fits with
  | true => exact Follows.pure _
  | false => exact Follows.throw _

theorem lookUp_follows (id : NodeId) (name : Token) : Follows S (lookUp id name) :=
  Follows.get fun _ => orFail_follows _ _ _

theorem assignName_follows (id : NodeId) (name : Token) (v : Value) :
    Follows S (assignName id name v) := by
  apply Follows.get
  intro m
  cases m.ownerOf? id name.lexeme with
  | some frame => exact Follows.modify fun m => Gradual.put m _ _ _
  | none => exact fail_follows _ _

theorem bindMethod_follows (c : Class) (object : ObjectId) (method : Method) :
    Follows S (bindMethod c object method) := by
  cases method with
  | declared closure =>
    exact (childEnv_follows _).bind fun env => (defineIn_follows _ _ _).bind fun _ =>
      freshIdentity_follows.bind fun id => Follows.pure _
  | native op => exact freshIdentity_follows.bind fun id => Follows.pure _

theorem getProperty_follows (c : Class) (object : ObjectId) (name : Token) :
    Follows S (getProperty c object name) := by
  apply Follows.get
  intro m
  cases m.store.field? object name.lexeme with
  | some v => exact Follows.pure _
  | none =>
    exact (orFail_follows _ _ _).bind fun method => (bindMethod_follows c object method).bind fun _ =>
      Follows.pure _

theorem superMethod_follows (id : NodeId) (keyword method : Token) :
    Follows S (superMethod id keyword method) :=
  Follows.get fun _ => (orFail_follows _ _ _).bind fun _ => (orFail_follows _ _ _).bind fun _ =>
    (orFail_follows _ _ _).bind fun _ => (orFail_follows _ _ _).bind fun (c, object) =>
    (orFail_follows _ _ _).bind fun found => (bindMethod_follows c object found).bind fun _ =>
    Follows.pure _

/-! ### Expressions -/

def CallFollows (S : Machine → Machine → Prop) (call : Invoke) : Prop :=
  ∀ callee arguments paren, Follows S (call callee arguments paren)

section Expressions

variable {call : Invoke}

theorem callWith_follows (h : CallFollows S call) (callee : Callable) (arguments : List Value)
    (paren : Token) : Follows S (callWith call callee arguments paren) :=
  Follows.ite (h callee arguments paren) (fail_follows _ _)

mutual

theorem evaluate_follows (h : CallFollows S call) : (e : Expr) → Follows S (evaluate call e)
  | .literal l => Follows.pure _
  | .group inner => evaluate_follows h inner
  | .unary operator right => (evaluate_follows h right).bind fun _ => orFault_follows _ _
  | .binary left operator right => (evaluate_follows h left).bind fun _ =>
    (evaluate_follows h right).bind fun _ => orFault_follows _ _
  | .logical left operator right => (evaluate_follows h left).bind fun _ =>
    Follows.ite (Follows.pure _) (evaluate_follows h right)
  | .variable id name => lookUp_follows id name
  | .assign id name value => (evaluate_follows h value).bind fun v =>
    (assignName_follows id name v).bind fun _ => Follows.pure v
  | .call callee paren arguments => (evaluate_follows h callee).bind fun v => by
    cases v with
    | callable c =>
      exact (evaluateAll_follows h arguments).bind fun vs => callWith_follows h c vs paren
    | nil | bool | number | string | «instance» => exact fail_follows _ _
  | .get object name => (evaluate_follows h object).bind fun v => by
    cases v with
    | «instance» c o => exact getProperty_follows c o name
    | nil | bool | number | string | callable => exact fail_follows _ _
  | .set object name value => (evaluate_follows h object).bind fun v => by
    cases v with
    | «instance» c o =>
      exact (evaluate_follows h value).bind fun v =>
        (Follows.modify fun m => Gradual.setField m o name.lexeme v).bind fun _ => Follows.pure v
    | nil | bool | number | string | callable => exact fail_follows _ _
  | .this id keyword => lookUp_follows id keyword
  | .super id keyword method => superMethod_follows id keyword method

theorem evaluateAll_follows (h : CallFollows S call) : (es : List Expr) →
    Follows S (evaluateAll call es)
  | [] => Follows.pure _
  | e :: es => (evaluate_follows h e).bind fun _ => (evaluateAll_follows h es).bind fun _ =>
    Follows.pure _

end

theorem evaluate?_follows (h : CallFollows S call) (o : Option Expr) :
    Follows S (evaluate? call o) := by
  cases o with
  | none => exact Follows.pure _
  | some e => exact evaluate_follows h e

/-! ### Statements -/

theorem declareFunction_follows (d : FunctionDecl) : Follows S (declareFunction d) :=
  freshIdentity_follows.bind fun _ => Follows.get fun _ => define_follows _ _

theorem evaluateSuperclass_follows (h : CallFollows S call) (name : Token) (o : Option Expr) :
    Follows S (evaluateSuperclass call name o) := by
  cases o with
  | none => exact Follows.pure _
  | some e => exact (evaluate_follows h e).bind fun _ => (orFail_follows _ _ _).map some

theorem methodEnv_follows (superclass : Option Class) : Follows S (methodEnv superclass) := by
  apply Follows.get
  intro m
  cases superclass with
  | none => exact Follows.pure _
  | some c =>
    exact (childEnv_follows _).bind fun inner => (defineIn_follows _ _ _).bind fun _ => Follows.pure _

theorem assignClass_follows (name : Token) (c : Class) : Follows S (assignClass name c) := by
  apply Follows.get
  intro m
  cases m.store.owner? m.env name.lexeme with
  | some frame => exact Follows.modify fun m => Gradual.put m _ _ _
  | none => exact fail_follows _ _

theorem declareClass_follows (h : CallFollows S call) (name : Token) (superclass : Option Expr)
    (methods : List FunctionDecl) : Follows S (declareClass call name superclass methods) :=
  (evaluateSuperclass_follows h name superclass).bind fun parent =>
    (define_follows _ _).bind fun _ => (methodEnv_follows parent).bind fun _ =>
    freshIdentity_follows.bind fun _ => assignClass_follows _ _

theorem loop_follows {condition : Eval Value} {body : Eval Flow} (test : Follows S condition)
    (lap : Follows S body) (laps : Nat) : Follows S (loop condition body laps) := by
  induction laps with
  | zero => exact Follows.throw _
  | succ laps ih =>
    refine test.bind fun v => Follows.ite (lap.bind fun flow => ?_) (Follows.pure _)
    cases flow with
    | normal => exact ih
    | «break» => exact Follows.pure _
    | «return» v => exact Follows.pure _

mutual

theorem execute_follows (h : CallFollows S call) (laps : Nat) : (s : Stmt) →
    Follows S (execute call laps s)
  | .expression e => (evaluate_follows h e).bind fun _ => Follows.pure _
  | .print e => (evaluate_follows h e).bind fun _ => (printLine_follows _).bind fun _ =>
    Follows.pure _
  | .var _ initializer =>
    (evaluate?_follows h initializer).bind fun _ => (define_follows _ _).bind fun _ => Follows.pure _
  | .block body => Follows.get fun _ => (childEnv_follows _).bind fun env =>
    Follows.within env (executeAll_follows h laps body)
  | .ite condition thenBranch none => (evaluate_follows h condition).bind fun _ =>
    Follows.ite (execute_follows h laps thenBranch) (Follows.pure _)
  | .ite condition thenBranch (some elseBranch) => (evaluate_follows h condition).bind fun _ =>
    Follows.ite (execute_follows h laps thenBranch) (execute_follows h laps elseBranch)
  | .while condition body =>
    loop_follows (evaluate_follows h condition) (execute_follows h laps body) laps
  | .break _ => Follows.pure _
  | .function d => (declareFunction_follows d).bind fun _ => Follows.pure _
  | .return _ value => (evaluate?_follows h value).bind fun _ => Follows.pure _
  | .class name superclass methods =>
    (declareClass_follows h name superclass methods).bind fun _ => Follows.pure _

theorem executeAll_follows (h : CallFollows S call) (laps : Nat) :
    (ss : List Stmt) → Follows S (executeAll call laps ss)
  | [] => Follows.pure _
  | s :: ss => (execute_follows h laps s).bind fun flow => by
    cases flow with
    | normal => exact executeAll_follows h laps ss
    | «break» => exact Follows.pure _
    | «return» v => exact Follows.pure _

end

end Expressions

/-! ### Calls -/

theorem bindParameters_follows (env : Env) (params : List Token) (arguments : List Value) :
    Follows S (bindParameters env params arguments) := by
  induction params generalizing arguments with
  | nil => exact Follows.pure _
  | cons p ps ih =>
    cases arguments with
    | nil => exact Follows.pure _
    | cons v vs => exact (defineIn_follows env p.lexeme v).bind fun _ => ih vs

theorem result_follows (closure : Closure) (flow : Flow) : Follows S (result closure flow) := by
  unfold result
  apply Follows.ite
  · exact Follows.get fun m => Follows.pure _
  · cases flow with
    | «return» v => exact Follows.pure v
    | normal | «break» => exact Follows.pure _

theorem callFunction_follows {run : List Stmt → Eval Flow} (h : ∀ body, Follows S (run body))
    (closure : Closure) (arguments : List Value) :
    Follows S (callFunction run closure arguments) :=
  (childEnv_follows _).bind fun env => (bindParameters_follows env _ _).bind fun _ =>
    (Follows.within env (h closure.declaration.body)).bind fun flow => result_follows closure flow

end Gradual

section Stable

variable [Stable S]

theorem callNative_follows (op : Native) (receiver : Option ObjectId) (arguments : List Value)
    (paren : Token) : Follows S (callNative op receiver arguments paren) := by
  intro m
  have ran := Stable.native (S := S) op receiver arguments m
  unfold callNative
  cases ended : op.run receiver arguments m with
  | ok v n | error cause n =>
    rw [ended] at ran
    exact ran

section Calls

variable {run : List Stmt → Eval Flow} (h : ∀ body, Follows S (run body))

include h

theorem callMethod_follows (c : Class) (object : ObjectId) (method : Method) (arguments : List Value)
    (paren : Token) : Follows S (callMethod run c object method arguments paren) :=
  (bindMethod_follows c object method).bind fun bound => by
    cases bound with
    | function id closure => exact callFunction_follows h closure arguments
    | native id op receiver => exact callNative_follows op receiver arguments paren
    | «class» c => exact Follows.pure _

theorem instantiate_follows (c : Class) (arguments : List Value) (paren : Token) :
    Follows S (instantiate run c arguments paren) := by
  refine Follows.bind (fun m => Gradual.allocate m) fun object => ?_
  cases c.findMethod? initializerName with
  | none => exact Follows.pure _
  | some method =>
    exact (callMethod_follows h c object method arguments paren).bind fun _ => Follows.pure _

theorem apply_follows : CallFollows S (apply run) := by
  intro callee arguments paren
  cases callee with
  | function id closure => exact callFunction_follows h closure arguments
  | native id op receiver => exact callNative_follows op receiver arguments paren
  | «class» c => exact instantiate_follows h c arguments paren

end Calls

theorem invoke_follows (fuel : Nat) : CallFollows S (invoke fuel) := by
  induction fuel with
  | zero => exact fun _ _ _ => Follows.throw _
  | succ fuel ih => exact apply_follows fun body => executeAll_follows ih fuel body

/-! ### Programs -/

theorem runAll_follows (fuel : Nat) (program : List Stmt) : Follows S (runAll fuel program) := by
  induction program with
  | nil => exact Follows.pure _
  | cons s ss ih => exact (execute_follows (invoke_follows fuel) fuel s).bind fun _ => ih

end Stable

end Lox
