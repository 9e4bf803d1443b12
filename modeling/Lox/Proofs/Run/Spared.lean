import Lox.Proofs.Run.Trapped
import Lox.Proofs.Run.Upkeep

/-!
# Faults that only traps stand for

With traps in their place, nothing else raises four of the faults: the two of operators that are
none, that of a `super` outside of classes and that of a routine of lists without its list
(`run_spares`).
-/

namespace Lox

open EStateM (Result)

/-- The faults that are named in one place only. -/
def RuntimeFault.Internal : RuntimeFault → Prop
  | .invalidUnaryOperator _ => True
  | .invalidBinaryOperator _ => True
  | .superOutsideClass => True
  | .native fault => fault = .noReceiver
  | _ => False

def RunError.Internal : RunError → Prop
  | .program _ cause => cause.Internal
  | .stream _ => False

def Halt.Internal : Halt → Prop
  | .error e => e.Internal
  | .outOfFuel => False

/-- However the computation fails, it is with another fault. -/
def Spares {α : Type} (x : Eval α) : Prop := ∀ m e n, x m = .error e n → ¬ e.Internal

namespace Spares

variable {α β : Type}

theorem pure (a : α) : Spares (Pure.pure a : Eval α) := nofun

theorem throw {e : Halt} (other : ¬ e.Internal) : Spares (MonadExcept.throw e : Eval α) := by
  intro m e' n failed
  cases failed
  exact other

theorem step (f : Machine → α × Machine) : Spares (modifyGet f : Eval α) := nofun

theorem bind {x : Eval α} {f : α → Eval β} (first : Spares x) (next : ∀ a, Spares (f a)) :
    Spares (x >>= f) := by
  intro m e n failed
  cases ran : x m with
  | ok a m' =>
    rw [Grammar.bind_of_ok ran] at failed
    exact next a m' e n failed
  | error e' m' =>
    rw [Grammar.bind_of_error ran] at failed
    cases failed
    exact first m e n ran

theorem get {f : Machine → Eval α} (h : ∀ m, Spares (f m)) : Spares (MonadState.get >>= f) :=
  fun m => h m m

theorem map {x : Eval α} (f : α → β) (h : Spares x) : Spares (f <$> x) := by
  rw [← bind_pure_comp]
  exact bind h fun a => pure (f a)

theorem ite {c : Prop} [Decidable c] {x y : Eval α} (h : Spares x) (k : Spares y) :
    Spares (if c then x else y) := by
  split
  · exact h
  · exact k

theorem within {x : Eval α} (env : Env) (h : Spares x) : Spares (Lox.within env x) := by
  intro m e n failed
  unfold Lox.within at failed
  dsimp only at failed
  split at failed
  · cases failed
  · next e' n' ran =>
    cases failed
    exact h _ _ _ ran

end Spares

/-! ### Steps -/

theorem fail_spares {α : Type} (line : Nat) (cause : RuntimeFault) (other : ¬ cause.Internal) :
    Spares (fail line cause : Eval α) :=
  Spares.throw other

theorem orFail_spares {α : Type} (line : Nat) (cause : RuntimeFault) (other : ¬ cause.Internal)
    (o : Option α) : Spares (orFail line cause o) := by
  cases o with
  | none => exact fail_spares line cause other
  | some a => exact Spares.pure a

theorem defineIn_spares (env : Env) (name : String) (v : Value) : Spares (defineIn env name v) :=
  Spares.step _

theorem define_spares (name : String) (v : Value) : Spares (define name v) :=
  Spares.get fun m => defineIn_spares m.env name v

theorem printLine_spares (text : String) : Spares (printLine text) := by
  refine (Spares.step _).bind fun fits => ?_
  cases fits with
  | true => exact Spares.pure _
  | false => exact Spares.throw id

theorem lookUp_spares (id : NodeId) (name : Token) : Spares (lookUp id name) :=
  Spares.get fun _ => orFail_spares _ (.undefinedVariable _) not_false _

theorem assignName_spares (id : NodeId) (name : Token) (v : Value) :
    Spares (assignName id name v) := by
  apply Spares.get
  intro m
  cases m.ownerOf? id name.lexeme with
  | some frame => exact Spares.step _
  | none => exact fail_spares _ _ not_false

theorem bindMethod_spares (c : Class) (object : ObjectId) (method : Method) :
    Spares (bindMethod c object method) := by
  cases method with
  | declared closure =>
    exact (Spares.step _).bind fun env => (defineIn_spares _ _ _).bind fun _ =>
      (Spares.step _).bind fun id => Spares.pure _
  | native op => exact (Spares.step _).bind fun id => Spares.pure _

theorem getProperty_spares (c : Class) (object : ObjectId) (name : Token) :
    Spares (getProperty c object name) := by
  apply Spares.get
  intro m
  cases m.store.field? object name.lexeme with
  | some v => exact Spares.pure _
  | none =>
    exact (orFail_spares _ (.undefinedProperty _) not_false _).bind fun method =>
      (bindMethod_spares c object method).bind fun _ => Spares.pure _

theorem declareFunction_spares (d : FunctionDecl) : Spares (declareFunction d) :=
  (Spares.step _).bind fun _ => Spares.get fun _ => define_spares _ _

theorem methodEnv_spares (superclass : Option Class) : Spares (methodEnv superclass) := by
  apply Spares.get
  intro m
  cases superclass with
  | none => exact Spares.pure _
  | some c =>
    exact (Spares.step _).bind fun inner => (defineIn_spares _ _ _).bind fun _ => Spares.pure _

theorem loop_spares {condition : Eval Value} {body : Eval Flow} (test : Spares condition)
    (lap : Spares body) (laps : Nat) : Spares (loop condition body laps) := by
  induction laps with
  | zero => exact Spares.throw id
  | succ laps ih =>
    refine test.bind fun v => Spares.ite (lap.bind fun flow => ?_) (Spares.pure _)
    cases flow with
    | normal => exact ih
    | «break» | «return» => exact Spares.pure _

theorem bindParameters_spares (env : Env) (params : List Token) (arguments : List Value) :
    Spares (bindParameters env params arguments) := by
  induction params generalizing arguments with
  | nil => exact Spares.pure _
  | cons p ps ih =>
    cases arguments with
    | nil => exact Spares.pure _
    | cons v vs => exact (defineIn_spares env p.lexeme v).bind fun _ => ih vs

theorem result_spares (closure : Closure) (flow : Flow) : Spares (result closure flow) := by
  unfold result
  apply Spares.ite
  · exact Spares.get fun m => Spares.pure _
  · cases flow <;> exact Spares.pure _

theorem callFunction_spares {run : List Stmt → Eval Flow} (h : ∀ body, Spares (run body))
    (closure : Closure) (arguments : List Value) : Spares (callFunction run closure arguments) :=
  (Spares.step _).bind fun env => (bindParameters_spares _ _ _).bind fun _ =>
    (Spares.within env (h _)).bind fun _ => result_spares _ _

theorem thenFlush_spares {x : Eval Unit} (h : Spares x) : Spares (thenFlush x) := by
  intro m e n failed
  unfold thenFlush at failed
  split at failed
  · split at failed
    · cases failed
      exact id
    · cases failed
  · cases failed
    exact id
  · next e' n' _ ran =>
    split at failed
    · cases failed
      exact id
    · cases failed
      exact h m e n ran

theorem Spares.outcome {α : Type} {x : Eval α} (h : Spares x) {m : Machine} {e : RunError}
    (failed : (Outcome.ofResult (x m)).1 = .failed e) : ¬ e.Internal := by
  cases ran : x m with
  | ok a n =>
    rw [ran] at failed
    cases failed
  | error halt n =>
    rw [ran] at failed
    cases halt with
    | outOfFuel => cases failed
    | error e' =>
      cases failed
      exact h m _ n ran

def CallSpares (call : Invoke) : Prop :=
  ∀ callee arguments paren, Spares (call callee arguments paren)

theorem callWith_spares {call : Invoke} (h : CallSpares call) (callee : Callable)
    (arguments : List Value) (paren : Token) : Spares (callWith call callee arguments paren) :=
  Spares.ite (h callee arguments paren) (fail_spares _ (.wrongArity _ _) not_false)

namespace Trapped

/-- The traps end a run with none of these faults. -/
def Safe (trap : Trap) : Prop := ∀ line cause, ¬ (trap line cause).Internal

variable {trap : Trap}

theorem orTrap_spares {α : Type} (safe : Safe trap) (line : Nat) (cause : RuntimeFault)
    (o : Option α) : Spares (orTrap trap line cause o) := by
  cases o with
  | none => exact Spares.throw (safe line cause)
  | some a => exact Spares.pure a

theorem orFault_spares (safe : Safe trap) (line : Nat) {r : Except RuntimeFault Value}
    (h : Operated r) : Spares (orFault trap line r) := by
  cases h with
  | @ok v _ => exact Spares.pure v
  | operand | operands | summands => exact fail_spares _ _ not_false
  | unary | binary => exact Spares.throw (safe _ _)

theorem superMethod_spares (safe : Safe trap) (id : NodeId) (keyword method : Token) :
    Spares (superMethod trap id keyword method) :=
  Spares.get fun _ => (orTrap_spares safe _ _ _).bind fun _ => (orTrap_spares safe _ _ _).bind
    fun _ => (orTrap_spares safe _ _ _).bind fun _ => (orTrap_spares safe _ _ _).bind
    fun (c, object) => (orFail_spares _ (.undefinedProperty _) not_false _).bind fun found =>
    (bindMethod_spares c object found).bind fun _ => Spares.pure _

/-! ### Expressions -/

section Expressions

variable {call : Invoke}

mutual

theorem evaluate_spares (safe : Safe trap) (h : CallSpares call) : (e : Expr) →
    Spares (evaluate trap call e)
  | .literal _ => Spares.pure _
  | .group inner => evaluate_spares safe h inner
  | .unary _ right => (evaluate_spares safe h right).bind fun _ =>
    orFault_spares safe _ (operated_unary _ _)
  | .binary left _ right => (evaluate_spares safe h left).bind fun _ =>
    (evaluate_spares safe h right).bind fun _ => orFault_spares safe _ (operated_binary _ _ _)
  | .logical left _ right => (evaluate_spares safe h left).bind fun _ =>
    Spares.ite (Spares.pure _) (evaluate_spares safe h right)
  | .variable id name => lookUp_spares id name
  | .assign id name value => (evaluate_spares safe h value).bind fun v =>
    (assignName_spares id name v).bind fun _ => Spares.pure v
  | .call callee paren arguments => (evaluate_spares safe h callee).bind fun v => by
    cases v with
    | callable c =>
      exact (evaluateAll_spares safe h arguments).bind fun vs => callWith_spares h c vs paren
    | nil | bool | number | string | «instance» => exact fail_spares _ .notCallable not_false
  | .get object name => (evaluate_spares safe h object).bind fun v => by
    cases v with
    | «instance» c o => exact getProperty_spares c o name
    | nil | bool | number | string | callable => exact fail_spares _ .noProperties not_false
  | .set object _ value => (evaluate_spares safe h object).bind fun v => by
    cases v with
    | «instance» c o =>
      exact (evaluate_spares safe h value).bind fun v => (Spares.step _).bind fun _ => Spares.pure v
    | nil | bool | number | string | callable => exact fail_spares _ .noFields not_false
  | .this id keyword => lookUp_spares id keyword
  | .super id keyword method => superMethod_spares safe id keyword method

theorem evaluateAll_spares (safe : Safe trap) (h : CallSpares call) : (es : List Expr) →
    Spares (evaluateAll trap call es)
  | [] => Spares.pure _
  | e :: es => (evaluate_spares safe h e).bind fun _ => (evaluateAll_spares safe h es).bind fun _ =>
    Spares.pure _

end

theorem evaluate?_spares (safe : Safe trap) (h : CallSpares call) (o : Option Expr) :
    Spares (evaluate? trap call o) := by
  cases o with
  | none => exact Spares.pure _
  | some e => exact evaluate_spares safe h e

/-! ### Statements -/

theorem evaluateSuperclass_spares (safe : Safe trap) (h : CallSpares call) (name : Token)
    (o : Option Expr) : Spares (evaluateSuperclass trap call name o) := by
  cases o with
  | none => exact Spares.pure _
  | some e =>
    exact (evaluate_spares safe h e).bind fun _ =>
      (orFail_spares _ .superclassNotClass not_false _).map some

theorem assignClass_spares (safe : Safe trap) (name : Token) (c : Class) :
    Spares (assignClass trap name c) := by
  apply Spares.get
  intro m
  cases m.store.owner? m.env name.lexeme with
  | some frame => exact Spares.step _
  | none => exact Spares.throw (safe _ _)

theorem declareClass_spares (safe : Safe trap) (h : CallSpares call) (name : Token)
    (superclass : Option Expr) (methods : List FunctionDecl) :
    Spares (declareClass trap call name superclass methods) :=
  (evaluateSuperclass_spares safe h name superclass).bind fun parent =>
    (define_spares _ _).bind fun _ => (methodEnv_spares parent).bind fun _ =>
    (Spares.step _).bind fun _ => assignClass_spares safe _ _

variable (laps : Nat)

mutual

theorem execute_spares (safe : Safe trap) (h : CallSpares call) : (s : Stmt) →
    Spares (execute trap call laps s)
  | .expression e => (evaluate_spares safe h e).bind fun _ => Spares.pure _
  | .print e => (evaluate_spares safe h e).bind fun _ => (printLine_spares _).bind fun _ =>
    Spares.pure _
  | .var _ initializer => (evaluate?_spares safe h initializer).bind fun _ =>
    (define_spares _ _).bind fun _ => Spares.pure _
  | .block body => Spares.get fun _ => (Spares.step _).bind fun env =>
    Spares.within env (executeAll_spares safe h body)
  | .ite condition thenBranch none => (evaluate_spares safe h condition).bind fun _ =>
    Spares.ite (execute_spares safe h thenBranch) (Spares.pure _)
  | .ite condition thenBranch (some elseBranch) => (evaluate_spares safe h condition).bind fun _ =>
    Spares.ite (execute_spares safe h thenBranch) (execute_spares safe h elseBranch)
  | .while condition body =>
    loop_spares (evaluate_spares safe h condition) (execute_spares safe h body) laps
  | .break _ => Spares.pure _
  | .function d => (declareFunction_spares d).bind fun _ => Spares.pure _
  | .return _ value => (evaluate?_spares safe h value).bind fun _ => Spares.pure _
  | .class name superclass methods =>
    (declareClass_spares safe h name superclass methods).bind fun _ => Spares.pure _

theorem executeAll_spares (safe : Safe trap) (h : CallSpares call) : (ss : List Stmt) →
    Spares (executeAll trap call laps ss)
  | [] => Spares.pure _
  | s :: ss => (execute_spares safe h s).bind fun flow => by
    cases flow with
    | normal => exact executeAll_spares safe h ss
    | «break» | «return» => exact Spares.pure _

end

end Expressions

/-! ### Calls -/

theorem callNative_spares (safe : Safe trap) (op : Native) (receiver : Option ObjectId)
    (arguments : List Value) (paren : Token) :
    Spares (callNative trap op receiver arguments paren) := by
  intro m e n failed
  unfold callNative at failed
  split at failed
  · cases failed
  · cases failed
    exact safe _ _
  · next other _ =>
    cases failed
    exact other

section Calls

variable {run : List Stmt → Eval Flow} (h : ∀ body, Spares (run body))

include h

theorem callMethod_spares (safe : Safe trap) (c : Class) (object : ObjectId) (method : Method)
    (arguments : List Value) (paren : Token) :
    Spares (callMethod trap run c object method arguments paren) :=
  (bindMethod_spares c object method).bind fun bound => by
    cases bound with
    | function id closure => exact callFunction_spares h closure arguments
    | native id op receiver => exact callNative_spares safe op receiver arguments paren
    | «class» c => exact Spares.pure _

theorem apply_spares (safe : Safe trap) : CallSpares (apply trap run) := by
  intro callee arguments paren
  cases callee with
  | function id closure => exact callFunction_spares h closure arguments
  | native id op receiver => exact callNative_spares safe op receiver arguments paren
  | «class» c =>
    refine (Spares.step _).bind fun object => ?_
    cases c.findMethod? initializerName with
    | none => exact Spares.pure _
    | some method =>
      exact (callMethod_spares h safe c object method arguments paren).bind fun _ => Spares.pure _

end Calls

theorem invoke_spares (safe : Safe trap) (fuel : Nat) : CallSpares (invoke trap fuel) := by
  induction fuel with
  | zero => exact fun _ _ _ => Spares.throw id
  | succ fuel ih => exact apply_spares (fun body => executeAll_spares fuel safe ih body) safe

/-! ### Programs -/

theorem runAll_spares (safe : Safe trap) (fuel : Nat) (program : List Stmt) :
    Spares (runAll trap fuel program) := by
  induction program with
  | nil => exact Spares.pure _
  | cons s ss ih =>
    exact (execute_spares fuel safe (invoke_spares safe fuel) s).bind fun _ => ih

/-! ### Source texts -/

theorem runProgram_spares (safe : Safe trap) (m : Machine) (fuel : Nat) (program : List Stmt)
    {e : RunError} (failed : (runProgram trap m fuel program).1 = .failed e) : ¬ e.Internal := by
  unfold runProgram at failed
  dsimp only at failed
  split at failed
  · exact (thenFlush_spares (runAll_spares safe fuel program)).outcome failed
  · cases failed

/-- No text fails with a fault that there is a trap for. -/
theorem run_spares (safe : Safe trap) (m : Machine) (fuel : Nat) (source : String) {e : RunError}
    (failed : (run trap m fuel source).1 = .failed e) : ¬ e.Internal := by
  unfold run at failed
  dsimp only at failed
  split at failed
  · exact runProgram_spares safe _ fuel _ failed
  · cases failed

end Trapped

end Lox
